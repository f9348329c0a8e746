/-
**Composite decoders on incomplete data.**

`readUint32` and its kind read one byte at a time, `readStringF16` and its kind read a length and then
the bytes. A read that is refused moves nothing, but what the reads before it have taken stays taken.

* `Takes` says what a decoder makes of the bytes in front of it, and how far it gets where they do not
  suffice: `takes_readFixed` for one read of fixed width, `takes_groupsLoop` for the loop.
* `decode_spec` says when a decoder throws `out_of_range` and where it then stands.
* `retry_iff` says when the position and the cursor are those from before the call.
-/
import Wyze.ByteArray.Strings

namespace Wyze.ByteArray

open Blocks Encoding

variable {array : ByteArray} {α β : Type}

/-- The ways a decoder does not return: those of the array, and `buff.resize(len)` that throws
`std::length_error` or `std::bad_alloc`. -/
inductive Thrown where
  | fault (fault : Fault)
  | resize
  deriving DecidableEq, Repr

/-- What a decoder returns. -/
inductive Decoded where
  | int32 (value : Int32)
  | uint32 (value : UInt32)
  | int64 (value : Int64)
  | uint64 (value : UInt64)
  | text (value : List UInt8)
  deriving DecidableEq

/-- The decoders that take more than one read. -/
inductive Decoder where
  | readInt32
  | readUint32
  | readInt64
  | readUint64
  | readString (length : Length)
  deriving DecidableEq, Repr

variable (platform : Platform) (endian : Endian)

/-- The first statement of `readStringF16`, `readStringF32`, `readStringF64` and `readStringVint`. -/
def readLength (array : ByteArray) : Length → Except Fault Nat × ByteArray
  | .f16 => andThen (readFuint16 platform endian array) fun len array => (.ok len.toNat, array)
  | .f32 => andThen (readFuint32 platform endian array) fun len array => (.ok len.toNat, array)
  | .f64 => andThen (readFuint64 platform endian array) fun len array => (.ok len.toNat, array)
  | .vint => andThen (readUint64 platform array) fun len array => (.ok len.toNat, array)

/-- What a call on the array gives its caller. -/
def returned (change : α → β) (result : Except Fault α × ByteArray) : Except Thrown β × ByteArray :=
  ((result.1.map change).mapError .fault, result.2)

variable (resizes : Nat → Bool)

/-- The statements behind the length: `resizes len` says that `buff.resize(len)` returns. -/
def readBuff (length : Except Fault Nat × ByteArray) : Except Thrown Decoded × ByteArray :=
  match length with
  | (.error fault, array) => (.error (.fault fault), array)
  | (.ok len, array) =>
    if resizes len then returned Decoded.text (array.read len) else (.error .resize, array)

/-- Call a decoder. -/
def decode (array : ByteArray) : Decoder → Except Thrown Decoded × ByteArray
  | .readInt32 => returned Decoded.int32 (readInt32 platform array)
  | .readUint32 => returned Decoded.uint32 (readUint32 platform array)
  | .readInt64 => returned Decoded.int64 (readInt64 platform array)
  | .readUint64 => returned Decoded.uint64 (readUint64 platform array)
  | .readString length => readBuff resizes (readLength platform endian array length)

/-- Where every string can be resized a decoder of strings is `readText`. -/
theorem decode_readString (array : ByteArray) (length : Length) :
    decode platform endian (fun _ => true) array (.readString length) =
      returned Decoded.text (readText platform endian array length) := by
  have behind {ω : Type} {len : Except Fault ω × ByteArray} (toNat : ω → Nat) :
      readBuff (fun _ => true) (andThen len fun len array => (.ok (toNat len), array)) =
        returned Decoded.text (andThen len fun len array => array.read (toNat len)) := by
    obtain ⟨result, moved⟩ := len
    cases result with
    | error fault => rfl
    | ok len => rfl
  cases length with
  | f16 => exact behind UInt16.toNat
  | f32 => exact behind UInt32.toNat
  | f64 => exact behind UInt64.toNat
  | vint => exact behind UInt64.toNat

/-! ### What the bytes say -/

/-- A number of fixed width at the front of some bytes, and what lies behind it. -/
def parseFixed (width : Nat) (bytes : List UInt8) : Option (Nat × List UInt8) :=
  if bytes.length < width then none
  else some (ordered platform endian width (platform.load (bytes.take width)), bytes.drop width)

/-- The groups of seven bits at the front of some bytes. -/
def parseUint64 (bytes : List UInt8) : Option (UInt64 × List UInt8) :=
  gather (fun b i => (platform.shiftLeft32 b i).toUInt64) (groupShifts 64) 0 bytes

/-- The length of a string at the front of some bytes. -/
def parseLength (bytes : List UInt8) : Length → Option (Nat × List UInt8)
  | .f16 => (parseFixed platform endian 2 bytes).map (Prod.map (·.toUInt16.toNat) id)
  | .f32 => (parseFixed platform endian 4 bytes).map (Prod.map (·.toUInt32.toNat) id)
  | .f64 => (parseFixed platform endian 8 bytes).map (Prod.map (·.toUInt64.toNat) id)
  | .vint => (parseUint64 platform bytes).map (Prod.map (·.toNat) id)

/-- The length is missing, or fewer bytes than it says lie behind it. -/
def TextMissing : Option (Nat × List UInt8) → Prop
  | none => True
  | some (len, rest) => resizes len = true ∧ rest.length < len

instance : (parsed : Option (Nat × List UInt8)) → Decidable (TextMissing resizes parsed)
  | none => inferInstanceAs (Decidable True)
  | some (len, rest) => inferInstanceAs (Decidable (resizes len = true ∧ rest.length < len))

/-- **The bytes are an incomplete encoding.** A number has fewer bytes than it may have and none of
them is a last one; a string misses its length or some of its bytes. -/
def Decoder.Incomplete (bytes : List UInt8) : Decoder → Prop
  | .readInt32 | .readUint32 => bytes.length < 5 ∧ ∀ byte ∈ bytes, ¬ byte < 0x80
  | .readInt64 | .readUint64 => bytes.length < 10 ∧ ∀ byte ∈ bytes, ¬ byte < 0x80
  | .readString length => TextMissing resizes (parseLength platform endian bytes length)

instance (bytes : List UInt8) :
    (decoder : Decoder) → Decidable (decoder.Incomplete platform endian resizes bytes)
  | .readInt32 | .readUint32 =>
    inferInstanceAs (Decidable (bytes.length < 5 ∧ ∀ byte ∈ bytes, ¬ byte < 0x80))
  | .readInt64 | .readUint64 =>
    inferInstanceAs (Decidable (bytes.length < 10 ∧ ∀ byte ∈ bytes, ¬ byte < 0x80))
  | .readString length =>
    inferInstanceAs (Decidable (TextMissing resizes (parseLength platform endian bytes length)))

/-- The bytes the first read of a length takes. -/
def Length.first : Length → Nat
  | .f16 => 2
  | .f32 => 4
  | .f64 => 8
  | .vint => 1

/-- The bytes the first read of a decoder takes. -/
def Decoder.first : Decoder → Nat
  | .readString length => length.first
  | _ => 1

/-! ### Taking bytes -/

/-- **A reader takes what `parse` says** from the front of what is unread, at least the `first` bytes.
Where these bytes are missing it takes nothing; where later ones are it has taken everything. -/
def Takes (reader : ByteArray → Except Fault α × ByteArray)
    (parse : List UInt8 → Option (α × List UInt8)) (first : Nat) : Prop :=
  ∀ array : ByteArray, array.WellFormed →
    (∀ value rest, parse array.unread = some (value, rest) →
      ∃ bytes, first ≤ bytes.length ∧ array.unread = bytes ++ rest ∧
        reader array = (.ok value, array.moveTo (array.position + bytes.length) array.size)) ∧
    (parse array.unread = none →
      reader array = (.error .outOfRange,
        array.moveTo (array.position + if array.unread.length < first then 0 else array.unread.length)
          array.size))

/-- A refused read moves nothing. -/
theorem read_refused (well : array.WellFormed) {width : Nat} (short : array.unread.length < width) :
    array.read width = (.error .outOfRange, array) := by
  rw [length_unread well] at short
  rw [read, if_pos short]

theorem Takes.map {reader : ByteArray → Except Fault α × ByteArray}
    {parse : List UInt8 → Option (α × List UInt8)} {first : Nat} (takes : Takes reader parse first)
    (change : α → β) :
    Takes (fun array => andThen (reader array) fun value array => (.ok (change value), array))
      (fun bytes => (parse bytes).map (Prod.map change id)) first := by
  intro array well
  obtain ⟨enough, short⟩ := takes array well
  constructor
  · intro value rest parsed
    obtain ⟨⟨read, left⟩, inner, changed⟩ := Option.map_eq_some_iff.mp parsed
    cases changed
    obtain ⟨bytes, least, front, run⟩ := enough read left inner
    exact ⟨bytes, least, front, by simp only [run, andThen]⟩
  · intro missing
    simp only [short (Option.map_eq_none_iff.mp missing), andThen]

theorem takes_readFixed {width : Nat} (positive : 1 ≤ width) :
    Takes (readFixed platform endian width) (parseFixed platform endian width) width := by
  intro array well
  unfold parseFixed
  by_cases short : array.unread.length < width
  · rw [if_pos short, if_pos short]
    refine ⟨fun _ _ missing => absurd missing.symm (Option.some_ne_none _), fun _ => ?_⟩
    rw [readFixed, read_refused well short, Nat.add_zero, moveTo_self well]
    rfl
  · rw [if_neg short]
    refine ⟨fun value rest parsed => ?_, fun missing => absurd missing (Option.some_ne_none _)⟩
    cases parsed
    have taken : (array.unread.take width).length = width := by
      rw [List.length_take]
      omega
    have split := (List.take_append_drop width array.unread).symm
    have run := @reads_read (array.unread.take width) (List.ne_nil_of_length_pos (by omega))
      array _ well split
    rw [taken] at run
    refine ⟨array.unread.take width, taken.ge, split, ?_⟩
    rw [readFixed, show array.read width = _ from run, taken]
    rfl

/-- The loop that runs out of bytes has taken all of them. -/
theorem groupsLoop_short {ω : Type} [OrOp ω] {place : UInt8 → Nat → ω} {shifts : List Nat}
    {result : ω} (well : array.WellFormed)
    (missing : gather place shifts result array.unread = none) :
    groupsLoop place shifts result array = (.error .outOfRange,
      array.moveTo (array.position + array.unread.length) array.size) := by
  induction shifts generalizing array result with
  | nil => exact absurd missing (Option.some_ne_none _)
  | cons i shifts ih =>
    rw [groupsLoop]
    rcases bytes : array.unread with _ | ⟨byte, rest⟩
    · have refused := @read_refused array well 1 (by rw [bytes]; exact Nat.one_pos)
      rw [readFuint8, refused, List.length_nil, Nat.add_zero, moveTo_self well]
      rfl
    · rw [bytes, gather] at missing
      have front : array.unread = [byte] ++ rest := bytes
      have total : (byte :: rest).length = [byte].length + rest.length := Nat.add_comm _ _
      obtain ⟨moved, left⟩ := moveTo_behind well front
      have run := reads_readFuint8 byte array rest well front
      have high : ¬ byte < 0x80 := by
        intro last
        rw [if_pos last] at missing
        exact Option.some_ne_none _ missing
      rw [if_neg high, ← left] at missing
      have others := ih moved missing
      rw [left] at others
      unfold andThen
      simp only [run, if_neg high]
      rw [others]
      rw [total, ← Nat.add_assoc array.position]
      rfl

theorem takes_groupsLoop {ω : Type} [OrOp ω] {place : UInt8 → Nat → ω} {shifts : List Nat}
    {result : ω} (some_shifts : shifts ≠ []) :
    Takes (groupsLoop place shifts result) (gather place shifts result) 1 := by
  intro array well
  constructor
  · intro value rest parsed
    obtain ⟨bytes, front, again, taken⟩ := gather_split parsed
    exact ⟨bytes, List.length_pos_iff.mpr (taken some_shifts), front,
      reads_groupsLoop again array rest well front⟩
  · intro missing
    have all : (if array.unread.length < 1 then 0 else array.unread.length) = array.unread.length := by
      split <;> omega
    rw [all]
    exact groupsLoop_short well missing

theorem takes_readLength (length : Length) :
    Takes (fun array => readLength platform endian array length)
      (fun bytes => parseLength platform endian bytes length) length.first := by
  have fixed {ω : Type} {width : Nat} (positive : 1 ≤ width) (convert : Nat → ω) (toNat : ω → Nat) :=
    ((takes_readFixed platform endian positive).map convert).map toNat
  have joined {first second third : Type} (one : first → second) (two : second → third)
      (parsed : Option (first × List UInt8)) :
      (parsed.map (Prod.map one id)).map (Prod.map two id) =
        parsed.map (Prod.map (fun value => two (one value)) id) := by
    rw [Option.map_map]
    rfl
  simp only [joined] at fixed
  cases length with
  | f16 => exact fixed (by decide) Nat.toUInt16 UInt16.toNat
  | f32 => exact fixed (by decide) Nat.toUInt32 UInt32.toNat
  | f64 => exact fixed (by decide) Nat.toUInt64 UInt64.toNat
  | vint => exact (takes_groupsLoop (by decide)).map UInt64.toNat

/-! ### Where a decoder stops -/

/-- How a call ends that throws `out_of_range`: it has taken some of what was unread, and nothing
exactly when the `first` bytes were missing. -/
def StopsShort (array : ByteArray) (first : Nat) (result : Except Thrown Decoded × ByteArray) : Prop :=
  ∃ lost, lost ≤ array.unread.length ∧ (lost = 0 ↔ array.unread.length < first) ∧
    result = (.error (.fault .outOfRange), array.moveTo (array.position + lost) array.size)

theorem lost_eq_zero_iff {unread first : Nat} (positive : 1 ≤ first) :
    (if unread < first then 0 else unread) = 0 ↔ unread < first := by
  split <;> omega

theorem Takes.number {reader : ByteArray → Except Fault α × ByteArray}
    {parse : List UInt8 → Option (α × List UInt8)} (takes : Takes reader parse 1)
    (well : array.WellFormed) (change : α → Decoded) :
    (parse array.unread = none → StopsShort array 1 (returned change (reader array))) ∧
      (parse array.unread ≠ none →
        (returned change (reader array)).1 ≠ .error (.fault .outOfRange)) := by
  obtain ⟨enough, short⟩ := takes array well
  constructor
  · intro missing
    refine ⟨_, ?_, lost_eq_zero_iff Nat.one_pos, ?_⟩
    · split <;> omega
    · rw [short missing]
      rfl
  · intro complete
    obtain ⟨⟨value, rest⟩, parsed⟩ := Option.ne_none_iff_exists'.mp complete
    obtain ⟨bytes, _, _, run⟩ := enough value rest parsed
    rw [run]
    rintro ⟨⟩

/-- The bytes of a string behind its length. -/
theorem readBuff_behind (well : array.WellFormed) {len : Nat} {bytes rest : List UInt8} {first : Nat}
    (positive : 1 ≤ first) (least : first ≤ bytes.length) (front : array.unread = bytes ++ rest) :
    let result := readBuff resizes
      (.ok len, array.moveTo (array.position + bytes.length) array.size)
    (resizes len = true ∧ rest.length < len → StopsShort array first result) ∧
      (¬ (resizes len = true ∧ rest.length < len) → result.1 ≠ .error (.fault .outOfRange)) := by
  obtain ⟨moved, left⟩ := moveTo_behind well front
  have total : array.unread.length = bytes.length + rest.length := by
    rw [front, List.length_append]
  simp only [readBuff]
  constructor
  · rintro ⟨sized, short⟩
    rw [if_pos sized, read_refused moved (by rwa [left])]
    exact ⟨bytes.length, by omega, by omega, rfl⟩
  · intro complete
    by_cases sized : resizes len = true
    · rw [if_pos sized]
      have enough : len ≤ rest.length := not_lt.mp fun short => complete ⟨sized, short⟩
      by_cases zero : len = 0
      · rw [zero, read_zero moved]
        split
        · rintro ⟨⟩
        · rintro ⟨⟩
      · have spec := read_spec moved (Nat.pos_of_ne_zero zero)
        have inside := length_unread moved
        have within := moved.position_le
        rw [left, getReadSize] at inside
        rw [if_neg (by omega)] at spec
        rw [spec]
        rintro ⟨⟩
    · rw [if_neg sized]
      rintro ⟨⟩

theorem length_groupShifts : (groupShifts 32).length = 5 ∧ (groupShifts 64).length = 10 := by
  constructor <;> rw [groupShifts, length_shiftsFrom]

/-- **What a decoder does with incomplete bytes and with complete ones.** -/
theorem decode_spec (well : array.WellFormed) (decoder : Decoder) :
    (decoder.Incomplete platform endian resizes array.unread →
      StopsShort array decoder.first (decode platform endian resizes array decoder)) ∧
    (¬ decoder.Incomplete platform endian resizes array.unread →
      (decode platform endian resizes array decoder).1 ≠ .error (.fault .outOfRange)) := by
  have narrow : Takes (readUint32 platform) _ 1 := takes_groupsLoop (by decide)
  have wide : Takes (readUint64 platform) _ 1 := takes_groupsLoop (by decide)
  have groups32 (place : UInt8 → Nat → UInt32) := @gather_eq_none_iff _ _ place (groupShifts 32) 0
    array.unread
  have groups64 (place : UInt8 → Nat → UInt64) := @gather_eq_none_iff _ _ place (groupShifts 64) 0
    array.unread
  rw [length_groupShifts.1] at groups32
  rw [length_groupShifts.2] at groups64
  cases decoder with
  | readUint32 =>
    have spec := narrow.number well Decoded.uint32
    rwa [ne_eq, groups32] at spec
  | readInt32 =>
    have spec := (narrow.map decodeZigzag32).number well Decoded.int32
    rwa [ne_eq, Option.map_eq_none_iff, groups32] at spec
  | readUint64 =>
    have spec := wide.number well Decoded.uint64
    rwa [ne_eq, groups64] at spec
  | readInt64 =>
    have spec := (wide.map decodeZigzag64).number well Decoded.int64
    rwa [ne_eq, Option.map_eq_none_iff, groups64] at spec
  | readString length =>
    have positive : 1 ≤ length.first := by cases length <;> decide
    obtain ⟨enough, short⟩ := takes_readLength platform endian length array well
    simp only [Decoder.Incomplete, decode, Decoder.first]
    rcases parsed : parseLength platform endian array.unread length with _ | ⟨len, rest⟩
    · refine ⟨fun _ => ⟨_, ?_, lost_eq_zero_iff positive, ?_⟩, fun complete => absurd trivial complete⟩
      · split <;> omega
      · show readBuff resizes (readLength platform endian array length) = _
        rw [show readLength platform endian array length = _ from short parsed]
        rfl
    · obtain ⟨bytes, least, front, run⟩ := enough len rest parsed
      simp only [run]
      exact readBuff_behind resizes well positive least front

/-- **A decoder can be called again exactly when its first read was the one refused.** In every state of
a run: the call throws `out_of_range` when the unread bytes are an incomplete encoding, and the
position and the cursor are then those from before the call when there were not even the bytes for the
first read. -/
theorem retry_iff {baseSize : Nat} (base_pos : 1 ≤ baseSize) (fresh : Nat → UInt8) {calls : List Call}
    {views : List View}
    (executed : Labelled.trace call (new baseSize fresh) calls = some (array, views))
    (decoder : Decoder) :
    ((decode platform endian resizes array decoder).1 = .error (.fault .outOfRange) ↔
      decoder.Incomplete platform endian resizes array.unread) ∧
    (((decode platform endian resizes array decoder).1 = .error (.fault .outOfRange) →
        (decode platform endian resizes array decoder).2.position = array.position ∧
          (decode platform endian resizes array decoder).2.cur = array.cur) ↔
      (decoder.Incomplete platform endian resizes array.unread →
        array.unread.length < decoder.first)) := by
  have well := run_wellFormed base_pos fresh executed
  obtain ⟨stops, complete⟩ := decode_spec platform endian resizes well decoder
  have thrown : (decode platform endian resizes array decoder).1 = .error (.fault .outOfRange) ↔
      decoder.Incomplete platform endian resizes array.unread := by
    refine ⟨fun throws => not_not.mp fun whole => complete whole throws, fun incomplete => ?_⟩
    obtain ⟨lost, _, _, result⟩ := stops incomplete
    rw [result]
  refine ⟨thrown, ?_⟩
  rw [thrown]
  refine forall_congr' fun incomplete => ?_
  obtain ⟨lost, _, nothing, result⟩ := stops incomplete
  rw [result, ← nothing]
  constructor
  · rintro ⟨same, _⟩
    exact Nat.add_eq_left.mp same
  · intro none_lost
    rw [none_lost, Nat.add_zero, moveTo_self well]
    exact ⟨rfl, rfl⟩

/-- A string whose length has one byte of two. -/
theorem retry_first :
    ∃ array views, Labelled.trace call (new 4 fun _ => 0)
        [.write [0x83] fun _ => 0, .setPosition 0] = some (array, views) ∧
      ((decode ⟨.little, fun _ _ => 0⟩ .big (fun _ => true) array (.readString .f16)).1 =
          .error (.fault .outOfRange) →
        (decode ⟨.little, fun _ _ => 0⟩ .big (fun _ => true) array (.readString .f16)).2.position =
            array.position ∧
          (decode ⟨.little, fun _ _ => 0⟩ .big (fun _ => true) array (.readString .f16)).2.cur =
            array.cur) := by
  have executed : Labelled.trace call (new 4 fun _ => 0)
      [.write [0x83] fun _ => 0, .setPosition 0] = some (_, _) := rfl
  exact ⟨_, _, executed, (retry_iff ⟨.little, fun _ _ => 0⟩ .big (fun _ => true) (by decide)
    (fun _ => 0) executed (.readString .f16)).2.mpr fun _ => by decide⟩

/-- **Bytes are lost.** One group of a number has arrived, then the length of a string and one of its
three bytes: the call throws and the position is not the one from before. -/
theorem incomplete_moves :
    (∃ array views, Labelled.trace call (new 4 fun _ => 0)
        [.write [0x83] fun _ => 0, .setPosition 0] = some (array, views) ∧
      (decode ⟨.little, fun _ _ => 0⟩ .big (fun _ => true) array .readUint32).1 =
        .error (.fault .outOfRange) ∧
      array.position = 0 ∧
      (decode ⟨.little, fun _ _ => 0⟩ .big (fun _ => true) array .readUint32).2.position = 1) ∧
    ∃ array views, Labelled.trace call (new 4 fun _ => 0)
        [.write [0, 3, 0x61] fun _ => 0, .setPosition 0] = some (array, views) ∧
      (decode ⟨.little, fun _ _ => 0⟩ .big (fun _ => true) array (.readString .f16)).1 =
        .error (.fault .outOfRange) ∧
      array.position = 0 ∧
      (decode ⟨.little, fun _ _ => 0⟩ .big (fun _ => true) array (.readString .f16)).2.position = 2 := by
  refine ⟨⟨_, _, rfl, ?_, ?_, ?_⟩, _, _, rfl, ?_, ?_, ?_⟩ <;> decide +kernel

end Wyze.ByteArray
