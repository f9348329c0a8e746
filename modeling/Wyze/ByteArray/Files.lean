/-
**A `ByteArray` through a file.**

`writeToFile` writes what is behind the cursor; `readFromFile` reads pieces of the size of a node and
writes each of them, until one has come short.

* `readFromFile_eq`: the pieces come together, whatever the size of the nodes.
* `file_round_trip`: **what one array writes another reads, behind its own cursor and over what was
  there**; at full capacity there is nothing to write and the null cursor is dereferenced, and of a file
  that cannot be read the loop finds no end.
-/
import Wyze.ByteArray.Buffers
import Wyze.ByteArray.ReadAt
import Wyze.ByteArray.Scatter

namespace Wyze.ByteArray

open Blocks

variable {array : ByteArray}

/-- `writeToFile` of a file that can be opened: what it holds afterwards. -/
def writeToFile (array : ByteArray) : Except Fault (List UInt8) :=
  array.readAt array.getReadSize array.getPosition

/-- What is behind a name that `std::ifstream` can open: bytes, or something that no read gives bytes of
nor comes to the end of, as a directory is. -/
inductive Input where
  | bytes (data : List UInt8)
  | unreadable
  deriving DecidableEq

/-- The loop of `readFromFile`, for so many turns: `none` when it has not ended. The bytes that a write
finds in new nodes may depend on how much there is still to read. -/
def readFromFileLoop (fresh : Nat → Nat → UInt8) :
    Nat → ByteArray → Input → Option (Except Fault Unit × ByteArray)
  | 0, _, _ => none
  | turns + 1, array, .unreadable =>
    match array.write [] (fresh 0) with
    | (.error fault, array) => some (.error fault, array)
    | (.ok (), array) => readFromFileLoop fresh turns array .unreadable
  | turns + 1, array, .bytes data =>
    let buf := data.take array.baseSize
    match array.write buf (fresh data.length) with
    | (.error fault, array) => some (.error fault, array)
    | (.ok (), array) =>
      -- `eof` is seen by the read that asks for more than there is
      if buf.length < array.baseSize then some (.ok (), array)
      else readFromFileLoop fresh turns array (.bytes (data.drop array.baseSize))

/-! ### Writing -/

/-- **`writeToFile`** writes the bytes behind the cursor, where the cursor is on a node. -/
theorem writeToFile_eq (well : array.WellFormed) (word : array.capacity < 2 ^ 64) :
    array.writeToFile =
      if array.position < array.capacity then .ok (array.flat.slice array.position array.getReadSize)
      else .error .nullDeref := by
  have ordered := well.position_le
  have bound := well.size_le
  unfold writeToFile getPosition getReadSize
  have same : sub64 array.size array.position = array.size - array.position :=
    sub64_of_le ordered (by omega)
  rcases Nat.eq_zero_or_pos (array.size - array.position) with nothing | something
  · rw [nothing, readAt, if_neg (Nat.not_lt_zero _)]
    by_cases below : array.position < array.capacity
    · have slice : array.flat.slice array.position 0 = [] := List.take_zero
      have none' (chain : List Node) (npos : Nat) : readLoop chain npos 0 = some ([], 0) := by
        unfold readLoop
        rfl
      rw [well.cur_of_lt below, if_pos below, slice]
      dsimp only
      rw [none']
    · rw [well.cur_eq_none_iff.mpr (by omega), if_neg below]
  · rw [readAt_eq well something (by omega), readAtStart_eq rfl]
    by_cases below : array.position < array.capacity
    · rw [if_pos ⟨below, by omega⟩, if_pos below]
    · rw [if_neg fun both => below both.1, if_neg below]

/-! ### Reading -/

/-- A file without end: every turn writes no bytes. -/
theorem readFromFile_unreadable (fresh : Nat → Nat → UInt8) (turns : Nat) (array : ByteArray) :
    readFromFileLoop fresh turns array .unreadable = none := by
  induction turns generalizing array with
  | zero => rfl
  | succ turns ih => exact ih array

/-- What `readFromFile` leaves. -/
structure Loaded (array : ByteArray) (data : List UInt8) (next : ByteArray) : Prop where
  well : next.WellFormed
  position : next.position = array.position + data.length
  size : next.size = max array.size (array.position + data.length)
  contents : next.contents = overwrite array.contents array.position data

/-- One `write`. -/
theorem loaded_write (well : array.WellFormed) (buf : List UInt8) (fresh : Nat → UInt8) :
    ∃ next, array.write buf fresh = (.ok (), next) ∧ next.baseSize = array.baseSize ∧
      Loaded array buf next := by
  obtain ⟨next, returned, kept, same⟩ := write_spec well buf fresh
  obtain ⟨next', returned', position, size, contents⟩ := write_contents well buf fresh
  cases returned.symm.trans returned'
  refine ⟨next, returned, ?_, kept, position, size, contents⟩
  have base := congrArg Flat.baseSize same
  rw [Flat.write] at base
  split at base
  · exact base
  · refine Eq.trans base ?_
    show (array.flat.reserve buf.length fresh).baseSize = array.baseSize
    unfold Flat.reserve
    dsimp only
    split <;> rfl

/-- A piece behind a piece. -/
theorem Loaded.trans {middle next : ByteArray} {first second : List UInt8} (well : array.WellFormed)
    (front : Loaded array first middle) (back : Loaded middle second next) :
    Loaded array (first ++ second) next where
  well := back.well
  position := by rw [back.position, front.position, List.length_append, Nat.add_assoc]
  size := by
    rw [back.size, front.size, front.position, List.length_append]
    omega
  contents := by
    have inside : array.position ≤ array.contents.length :=
      (length_contents well).symm ▸ well.position_le
    rw [back.contents, front.contents, front.position, overwrite_overwrite inside]

/-- **`readFromFile`** ends after as many turns as the file has whole pieces, and one more, and has read
all of it. -/
theorem readFromFile_eq (fresh : Nat → Nat → UInt8) (data : List UInt8) (well : array.WellFormed) :
    ∃ next, Loaded array data next ∧ ∀ turns, data.length / array.baseSize < turns →
      readFromFileLoop fresh turns array (.bytes data) = some (.ok (), next) := by
  induction count : data.length using Nat.strong_induction_on generalizing data array with
  | h length ih =>
      subst count
      obtain ⟨middle, written, sameBase, front⟩ :=
        loaded_write well (data.take array.baseSize) (fresh data.length)
      by_cases short : data.length < array.baseSize
      · have whole : data.take array.baseSize = data := List.take_of_length_le (Nat.le_of_lt short)
        rw [whole] at written front
        refine ⟨middle, front, fun turns enough => ?_⟩
        cases turns with
        | zero => exact absurd enough (Nat.not_lt_zero _)
        | succ turns =>
            unfold readFromFileLoop
            dsimp only
            rw [whole, written]
            dsimp only
            rw [sameBase, if_pos short]
      · have basePos := well.base_pos
        have rest : (data.drop array.baseSize).length = data.length - array.baseSize := List.length_drop
        obtain ⟨next, back, ends⟩ := ih (data.drop array.baseSize).length (by omega)
          (data.drop array.baseSize) front.well rfl
        have joined := front.trans well back
        rw [List.take_append_drop] at joined
        refine ⟨next, joined, fun turns enough => ?_⟩
        cases turns with
        | zero => exact absurd enough (Nat.not_lt_zero _)
        | succ turns =>
            have piece : (data.take array.baseSize).length = array.baseSize :=
              List.length_take_of_le (Nat.le_of_not_lt short)
            unfold readFromFileLoop
            dsimp only
            rw [written]
            dsimp only
            rw [piece, sameBase, if_neg (Nat.lt_irrefl _)]
            refine ends turns ?_
            rw [rest, sameBase]
            have step := Nat.div_eq_sub_div basePos (Nat.le_of_not_lt short)
            omega

/-! ### Both -/

/-- **Through a file.** An array whose cursor is on a node is written, and another array with nodes of any
size reads just these bytes, over what it had behind its own cursor, and moves on by them. At full capacity
the write dereferences the null cursor, and a file that cannot be read is read for ever. -/
theorem file_round_trip (source target : ByteArray) (fresh : Nat → Nat → UInt8)
    (sourceWell : source.WellFormed) (targetWell : target.WellFormed)
    (word : source.capacity < 2 ^ 64) :
    (source.position < source.capacity → ∃ data next, source.writeToFile = .ok data ∧
      data.length = source.getReadSize ∧
      (∀ turns, source.getReadSize / target.baseSize < turns →
        readFromFileLoop fresh turns target (.bytes data) = some (.ok (), next)) ∧
      next.WellFormed ∧ next.getPosition = target.getPosition + source.getReadSize ∧
      next.getSize = max target.getSize next.getPosition ∧
      next.contents = overwrite target.contents target.getPosition
        (source.contents.drop source.getPosition)) ∧
    (source.position = source.capacity → source.writeToFile = .error .nullDeref) ∧
    ∀ turns, readFromFileLoop fresh turns target .unreadable = none := by
  refine ⟨fun below => ?_, fun atEnd => ?_, fun turns => readFromFile_unreadable fresh turns target⟩
  · have ordered := sourceWell.position_le
    have bytes : source.flat.slice source.position source.getReadSize =
        source.contents.drop source.getPosition := by
      unfold contents Flat.slice getReadSize getPosition
      rw [List.drop_zero, List.drop_take]
    have length : (source.flat.slice source.position source.getReadSize).length =
        source.getReadSize := length_slice sourceWell (by unfold getReadSize; omega)
    have written := writeToFile_eq sourceWell word
    rw [if_pos below] at written
    obtain ⟨next, loaded, ends⟩ := readFromFile_eq fresh
      (source.flat.slice source.position source.getReadSize) targetWell
    rw [length] at ends
    refine ⟨_, next, written, length, ends, loaded.well, ?_, ?_, bytes ▸ loaded.contents⟩
    · exact length ▸ loaded.position
    · exact loaded.size.trans (congrArg (max target.size) loaded.position.symm)
  · rw [writeToFile_eq sourceWell word, if_neg (by omega)]

/-- Four bytes in three pieces, the last of none. -/
theorem file_round_trip_pieces :
    ∃ source target next : ByteArray, source.getPosition = 1 ∧ source.contents = [1, 2, 3, 4, 5] ∧
      target.contents = [9, 9] ∧ source.writeToFile = .ok [2, 3, 4, 5] ∧
      readFromFileLoop (fun _ _ => 0) 3 target (.bytes [2, 3, 4, 5]) = some (.ok (), next) ∧
      next.contents = [9, 9, 2, 3, 4, 5] := by
  let source := (((new 4 fun _ => 0).write [1, 2, 3, 4, 5] fun _ => 0).2.setPosition 1).2
  let target := ((new 2 fun _ => 0).write [9, 9] fun _ => 0).2
  have sourceWell : source.WellFormed :=
    run_wellFormed (by decide) (fun _ => 0) (show Labelled.trace call (new 4 fun _ => 0)
      [.write [1, 2, 3, 4, 5] fun _ => 0, .setPosition 1] = some (source, _) from rfl)
  have targetWell : target.WellFormed :=
    run_wellFormed (by decide) (fun _ => 0) (show Labelled.trace call (new 2 fun _ => 0)
      [.write [9, 9] fun _ => 0] = some (target, _) from rfl)
  obtain ⟨data, next, written, _, ends, _, _, _, contents⟩ :=
    (file_round_trip source target (fun _ _ => 0) sourceWell targetWell (by decide)).1 (by decide)
  have bytes : source.writeToFile = .ok [2, 3, 4, 5] :=
    (writeToFile_eq sourceWell (by decide)).trans rfl
  cases bytes.symm.trans written
  exact ⟨source, target, next, rfl, rfl, rfl, written, ends 3 (by decide), contents⟩

end Wyze.ByteArray
