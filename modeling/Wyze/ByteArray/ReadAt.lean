/-
**`read` at a position that is not the cursor's.**

The `const` overload of `read` takes the position as an argument, but starts at `m_cur`, the node of
the array's own position, with the offset of the argument in its node. Its bound is a difference of
`size_t`, which wraps for a position behind the size.

* `readAt_eq` — what it does: it reads at the offset of its argument in the cursor's node.
* `readAt_exact_iff` — when this is what was asked for.
-/
import Wyze.ByteArray.Refine
import Wyze.Lib.Words

namespace Wyze.ByteArray

variable {array : ByteArray} {size position : Nat}

/-- `read(buf, size, position) const`. -/
def readAt (array : ByteArray) (size position : Nat) : Except Fault (List UInt8) :=
  if size > sub64 array.size position then .error .outOfRange
  else
    match array.cur with
    | none => .error .nullDeref
    | some cur =>
      match readLoop (array.nodes.drop cur) (position % array.baseSize) size with
      | none => .error .nullDeref
      | some (bytes, _) => .ok bytes

/-- Where `readAt` starts: at the offset of the position in its node, but in the cursor's node. -/
def readAtStart (array : ByteArray) (position : Nat) : Nat :=
  array.baseSize * (array.position / array.baseSize) + position % array.baseSize

/-- **What is asked for**: the bytes from the position on, or an exception when they are not all
there; the bytes are those of a `read` after `setPosition`. -/
structure ReadsAt (array : ByteArray) (size position : Nat) : Prop where
  result : array.readAt size position =
    if position + size ≤ array.size then .ok (array.flat.slice position size) else .error .outOfRange
  likeRead : position + size ≤ array.size →
    array.readAt size position = ((array.setPosition position).2.read size).1

/-- Neither the position lies behind the size, unless the bound does not wrap around far enough to
matter; nor, when the bytes are there, does the cursor stand at full capacity or on a node from which
other bytes are read. -/
def ReadAtSound (array : ByteArray) (size position : Nat) : Prop :=
  (position + size ≤ array.size →
    array.position < array.capacity ∧
      (array.position / array.baseSize = position / array.baseSize ∨
        array.readAtStart position + size ≤ array.capacity ∧
          array.flat.slice (array.readAtStart position) size = array.flat.slice position size)) ∧
    (array.size < position + size → position ≤ array.size ∨ array.size + 2 ^ 64 < position + size)

instance (array : ByteArray) (size position : Nat) : Decidable (array.ReadAtSound size position) :=
  inferInstanceAs (Decidable ((_ → _) ∧ (_ → _)))

/-! ### What the overload does -/

/-- The bound, for a position up to the size and for one behind it. -/
theorem bound_iff (fits : array.size < 2 ^ 64) (word : position < 2 ^ 64) :
    size > sub64 array.size position ↔
      if position ≤ array.size then array.size < position + size
      else array.size + 2 ^ 64 < position + size := by
  split
  · rename_i within
    rw [sub64_of_le within fits]
    omega
  · rename_i behind
    rw [sub64_of_lt (not_le.mp behind) word]
    omega

/-- **What is read**, once the bound is passed: nothing at full capacity, the bytes at the offset in
the cursor's node while they lie in the chain. -/
theorem readAt_eq (well : array.WellFormed) (some_bytes : 1 ≤ size)
    (passed : ¬ size > sub64 array.size position) :
    array.readAt size position =
      if array.position < array.capacity ∧ array.readAtStart position + size ≤ array.capacity then
        .ok (array.flat.slice (array.readAtStart position) size)
      else .error .nullDeref := by
  rw [readAt, if_neg passed]
  by_cases below : array.position < array.capacity
  · have cursor := well.cur_of_lt below
    have inside := (well.cur_eq_some cursor).1
    have uniform : Blocks.Uniform array.baseSize
        ((array.nodes.drop (array.position / array.baseSize)).map Node.ptr) := by
      rw [List.map_drop]
      exact well.uniform.drop _
    have start := Nat.mod_lt position well.base_pos
    have chain : (storage (array.nodes.drop (array.position / array.baseSize))).length +
        array.baseSize * (array.position / array.baseSize) = array.capacity := by
      have before := well.cur_eq_some cursor
      rw [storage_drop well.uniform inside.le, List.length_drop, well.length_storage]
      omega
    rw [cursor]
    dsimp only
    by_cases fits : array.readAtStart position + size ≤ array.capacity
    · rw [readAtStart] at fits
      rw [readLoop_spec _ _ _ uniform start (by omega), if_pos ⟨below, fits⟩,
        storage_drop well.uniform inside.le, List.drop_drop]
      rfl
    · rw [if_neg fun both => fits both.2]
      rw [readAtStart] at fits
      rw [readLoop_eq_none _ _ _ uniform start (by omega) some_bytes]
  · have atEnd := well.cur_eq_none_iff.mpr
      (Nat.le_antisymm well.position_le_capacity (not_lt.mp below))
    rw [atEnd, if_neg fun both => below both.1]

theorem readAtStart_eq (same : array.position / array.baseSize = position / array.baseSize) :
    array.readAtStart position = position := by
  rw [readAtStart, same, Nat.div_add_mod]

/-- `read` after `setPosition`, for bytes that are there. -/
theorem setPosition_read (well : array.WellFormed) (some_bytes : 1 ≤ size)
    (present : position + size ≤ array.size) :
    ((array.setPosition position).2.read size).1 = .ok (array.flat.slice position size) := by
  have within := well.size_le
  have moved := setPosition_spec well position
  rw [if_neg (by omega), max_eq_left (by omega)] at moved
  have read := read_spec (moveTo_wellFormed well (by omega : position ≤ array.size) within) some_bytes
  rw [if_neg (by simp only [moveTo]; omega)] at read
  rw [moved, read]
  rfl

/-- **Bytes that are there** are read when the cursor's node has them at that offset. -/
theorem readsAt_present_iff (well : array.WellFormed) (some_bytes : 1 ≤ size)
    (present : position + size ≤ array.size) (passed : ¬ size > sub64 array.size position) :
    array.ReadsAt size position ↔ array.ReadAtSound size position := by
  have within := well.size_le
  have sought := setPosition_read well some_bytes present
  have same : array.ReadsAt size position ↔
      array.readAt size position = .ok (array.flat.slice position size) := by
    constructor
    · intro reads
      rw [reads.result, if_pos present]
    · intro read
      exact ⟨by rw [if_pos present, read], fun _ => by rw [read, sought]⟩
  rw [same, readAt_eq well some_bytes passed, ReadAtSound,
    and_iff_left fun past => absurd past (by omega)]
  constructor
  · intro read _
    split at read
    · rename_i inside
      exact ⟨inside.1, Or.inr ⟨inside.2, Except.ok.inj read⟩⟩
    · cases read
  · intro sound
    obtain ⟨below, sameNode | ⟨fits, sameBytes⟩⟩ := sound present
    · have start := readAtStart_eq sameNode
      rw [start, if_pos ⟨below, by omega⟩]
    · rw [if_pos ⟨below, fits⟩, sameBytes]

/-- **Bytes that are not there** are refused when the bound does not wrap past them. -/
theorem readsAt_past_iff (well : array.WellFormed) (some_bytes : 1 ≤ size)
    (past : array.size < position + size)
    (bound : size > sub64 array.size position ↔
      position ≤ array.size ∨ array.size + 2 ^ 64 < position + size) :
    array.ReadsAt size position ↔ array.ReadAtSound size position := by
  have absent : ¬ position + size ≤ array.size := not_le.mpr past
  have same : array.ReadsAt size position ↔ array.readAt size position = .error .outOfRange := by
    constructor
    · intro reads
      rw [reads.result, if_neg absent]
    · intro refused
      exact ⟨by rw [if_neg absent, refused], fun here => absurd here absent⟩
  rw [same, ReadAtSound, and_iff_right fun here => absurd here absent, imp_iff_right past, ← bound]
  constructor
  · intro read
    by_contra passed
    rw [readAt_eq well some_bytes passed] at read
    split at read <;> cases read
  · intro refused
    rw [readAt, if_pos refused]

/-- **The overload is right exactly when the cursor helps it.** In every state of a run, for every
position and every size of at least one byte: the bound refuses what lies behind the size unless the
position does, and what is there is read when the cursor is not at full capacity and stands on the
node of the position, or on one from which the same bytes happen to be read. -/
theorem readAt_exact_iff (baseSize : Nat) (base_pos : 1 ≤ baseSize) (fresh : Nat → UInt8)
    (calls : List Call) {views : List View}
    (executed : Labelled.trace call (new baseSize fresh) calls = some (array, views))
    (word : array.capacity < 2 ^ 64) (size position : Nat) (some_bytes : 1 ≤ size)
    (word' : position < 2 ^ 64) :
    array.ReadsAt size position ↔ array.ReadAtSound size position := by
  have well := run_wellFormed base_pos fresh executed
  have within := well.size_le
  have bound : size > sub64 array.size position ↔ _ := bound_iff (by omega) word'
  by_cases present : position + size ≤ array.size
  · refine readsAt_present_iff well some_bytes present ?_
    rw [bound, if_pos (by omega)]
    omega
  · have past : array.size < position + size := not_le.mp present
    refine readsAt_past_iff well some_bytes past ?_
    rw [bound]
    split <;> omega

/-- Four bytes a node, the cursor in the second node. -/
theorem readAt_exact_second :
    ∃ array views, Labelled.trace call (new 4 fun _ => 0)
        [.write [1, 2, 3, 4, 5, 6, 7] fun _ => 0] = some (array, views) ∧
      array.ReadsAt 2 5 := by
  have executed : Labelled.trace call (new 4 fun _ => 0)
      [.write [1, 2, 3, 4, 5, 6, 7] fun _ => 0] = some (_, _) := rfl
  exact ⟨_, _, executed, (readAt_exact_iff 4 (by decide) (fun _ => 0) _ executed (by decide) 2 5
    (by decide) (by decide)).mpr (by decide)⟩

/-- **The overload goes wrong in three ways.** With the cursor in the second node it reads the fifth
byte for the first; at full capacity it dereferences a null node; behind the size it does not throw. -/
theorem readAt_exact_fails :
    (∃ array views, Labelled.trace call (new 4 fun _ => 0)
        [.write [1, 2, 3, 4, 5] fun _ => 0] = some (array, views) ∧
      array.readAt 1 0 = .ok [5] ∧ ¬ array.ReadsAt 1 0 ∧
      array.readAt 1 6 = .ok [0] ∧ ¬ array.ReadsAt 1 6) ∧
    ∃ array views, Labelled.trace call (new 4 fun _ => 0)
        [.write [1, 2, 3, 4] fun _ => 0] = some (array, views) ∧
      array.readAt 1 0 = .error .nullDeref ∧ ¬ array.ReadsAt 1 0 := by
  refine ⟨⟨_, _, rfl, by decide, fun reads => ?_, by decide, fun reads => ?_⟩,
    _, _, rfl, by decide, fun reads => ?_⟩
  · exact absurd reads.result (by decide)
  · exact absurd reads.result (by decide)
  · exact absurd reads.result (by decide)

end Wyze.ByteArray
