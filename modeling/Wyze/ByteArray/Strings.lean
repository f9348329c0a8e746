/-
**Strings written and read back.**

A string is its length and its bytes. `readText_ok` reads one back as long as something lies behind it
or the capacity is not reached; `readText_nullDeref` is the empty string that ends at full capacity,
whose read of no bytes dereferences the null cursor; `readText_long` is the length `readUint64` cannot
read. `strings_round_trip_iff` puts them together for every list of strings.
-/
import Wyze.ByteArray.RoundTrip

namespace Wyze.ByteArray

open Blocks Encoding

variable {array : ByteArray} {α β : Type}

/-- The four ways to write the length of a string. -/
inductive Length where
  | f16
  | f32
  | f64
  | vint
  deriving DecidableEq, Repr

/-- A string and the writer of its length. -/
structure Text where
  length : Length
  value : List UInt8
  deriving DecidableEq, Repr

/-- The lengths that fit into the type of the length. -/
def Length.limit : Length → Nat
  | .f16 => 2 ^ 16
  | .f32 => 2 ^ 32
  | .f64 => 2 ^ 64
  | .vint => 2 ^ 64

def Text.Fits (text : Text) : Prop := text.value.length < text.length.limit

instance (text : Text) : Decidable text.Fits :=
  inferInstanceAs (Decidable (text.value.length < text.length.limit))

variable (platform : Platform) (endian : Endian)

def writeText (text : Text) : ByteArray → (Nat → Nat → UInt8) → Except Fault Unit × ByteArray :=
  match text.length with
  | .f16 => writeStringF16 platform endian text.value
  | .f32 => writeStringF32 platform endian text.value
  | .f64 => writeStringF64 platform endian text.value
  | .vint => writeStringVint text.value

def readText (array : ByteArray) : Length → Except Fault (List UInt8) × ByteArray
  | .f16 => readStringF16 platform endian array
  | .f32 => readStringF32 platform endian array
  | .f64 => readStringF64 platform endian array
  | .vint => readStringVint platform array

def writeTexts : List Text → ByteArray → (Nat → Nat → Nat → UInt8) → Except Fault Unit × ByteArray
  | [], array, _ => (.ok (), array)
  | text :: texts, array, fresh =>
    andThen (writeText platform endian text array (fresh 0)) fun _ array =>
      writeTexts texts array fun count => fresh (count + 1)

def readTexts : List Length → ByteArray → Except Fault (List (List UInt8)) × ByteArray
  | [], array => (.ok [], array)
  | length :: lengths, array =>
    andThen (readText platform endian array length) fun value array =>
      andThen (readTexts lengths array) fun values array => (.ok (value :: values), array)

/-- The bytes of the length. -/
def Text.encodeLength (text : Text) : List UInt8 :=
  match text.length with
  | .f16 => platform.store 2 (ordered platform endian 2 text.value.length.toUInt16.toNat)
  | .f32 => platform.store 4 (ordered platform endian 4 text.value.length.toUInt32.toNat)
  | .f64 => platform.store 8 (ordered platform endian 8 text.value.length.toUInt64.toNat)
  | .vint => groups 9 text.value.length.toUInt64.toNat

def Text.encode (text : Text) : List UInt8 := text.encodeLength platform endian ++ text.value

theorem length_encodeLength_pos (text : Text) :
    1 ≤ (text.encodeLength platform endian).length := by
  unfold Text.encodeLength
  split
  · rw [length_store]
    decide
  · rw [length_store]
    decide
  · rw [length_store]
    decide
  · exact length_groups_pos _ _

/-! ### Writing -/

theorem writeText_eq (text : Text) (array : ByteArray) (fresh : Nat → Nat → UInt8) :
    writeText platform endian text array fresh =
      andThen (array.write (text.encodeLength platform endian) (fresh 0)) fun _ array =>
        array.write text.value (fresh 1) := by
  obtain ⟨length, value⟩ := text
  cases length <;> rfl

theorem writeTexts_atEnd {content : List UInt8} (atEnd : array.AtEnd content) (texts : List Text)
    (fresh : Nat → Nat → Nat → UInt8) : ∃ next, writeTexts platform endian texts array fresh =
      (.ok (), next) ∧ next.AtEnd (content ++ texts.flatMap (Text.encode platform endian)) ∧
      next.baseSize = array.baseSize := by
  induction texts generalizing array content fresh with
  | nil => exact ⟨array, rfl, by rwa [List.flatMap_nil, List.append_nil], rfl⟩
  | cons text texts ih =>
    obtain ⟨counted, first, countedEnd, countedBase⟩ :=
      atEnd.write (text.encodeLength platform endian) (fresh 0 0)
    obtain ⟨written, second, writtenEnd, writtenBase⟩ := countedEnd.write text.value (fresh 0 1)
    obtain ⟨next, others, nextEnd, nextBase⟩ := ih writtenEnd fun count => fresh (count + 1)
    refine ⟨next, ?_, ?_, nextBase.trans (writtenBase.trans countedBase)⟩
    · rw [writeTexts, writeText_eq, first]
      unfold andThen
      simp only [second]
      exact others
    · rw [List.flatMap_cons, Text.encode]
      simpa only [List.append_assoc] using nextEnd

/-! ### Reading one string -/

/-- **A read of no bytes** meets a null cursor at full capacity. -/
theorem read_zero (well : array.WellFormed) :
    array.read 0 =
      if array.position = array.capacity then (.error .nullDeref, array) else (.ok [], array) := by
  rw [read, if_neg (by omega)]
  by_cases full : array.position = array.capacity
  · rw [if_pos full, well.cur_eq_none_iff.mpr full]
  · have below := well.position_le_capacity
    have cursor := well.cur_of_lt (by omega)
    rw [if_neg full, cursor]
    simp only [readLoop, Nat.add_zero]
    rw [← show array.cur = array.nodeAt (array.position / array.baseSize) from well.cur_eq]

/-- What a read returns has the length asked for. -/
theorem length_of_read (well : array.WellFormed) {count : Nat} {bytes : List UInt8}
    (run : (array.read count).1 = .ok bytes) : bytes.length = count := by
  by_cases zero : count = 0
  · rw [zero, read_zero well] at run
    split at run
    · cases run
    · cases run
      exact zero.symm
  · have spec := read_spec well (Nat.pos_of_ne_zero zero)
    have sizeLe := well.size_le
    split at spec
    · rw [spec] at run
      cases run
    · rw [spec] at run
      cases run
      unfold Flat.slice
      show ((List.drop array.position (storage array.nodes)).take count).length = count
      rw [List.length_take, List.length_drop, well.length_storage]
      omega

/-- The length of a string can be read back. -/
def Text.Short (text : Text) : Prop := text.length = .vint → text.value.length < 2 ^ 32

/-- Reading a string reads its length and then that many bytes; only the variable-length form of a
long string gives another length. -/
theorem readText_eq {text : Text} (fits : text.Fits) :
    ∃ count, (text.Short ↔ count = text.value.length) ∧
      ∀ (array : ByteArray) (rest : List UInt8), array.WellFormed →
        array.unread = text.encodeLength platform endian ++ rest →
        readText platform endian array text.length =
          (array.moveTo (array.position + (text.encodeLength platform endian).length)
            array.size).read count := by
  obtain ⟨length, value⟩ := text
  cases length with
  | f16 =>
    have exact : value.length.toUInt16.toNat = value.length := Nat.mod_eq_of_lt fits
    refine ⟨value.length.toUInt16.toNat, ⟨fun _ => exact, fun _ vint => nomatch vint⟩, ?_⟩
    intro array rest well front
    have reads := reads_readFuint16 platform endian value.length.toUInt16 array rest well front
    show andThen (readFuint16 platform endian array) _ = _
    rw [reads]
    rfl
  | f32 =>
    have exact : value.length.toUInt32.toNat = value.length := Nat.mod_eq_of_lt fits
    refine ⟨value.length.toUInt32.toNat, ⟨fun _ => exact, fun _ vint => nomatch vint⟩, ?_⟩
    intro array rest well front
    have reads := reads_readFuint32 platform endian value.length.toUInt32 array rest well front
    show andThen (readFuint32 platform endian array) _ = _
    rw [reads]
    rfl
  | f64 =>
    have exact : value.length.toUInt64.toNat = value.length := Nat.mod_eq_of_lt fits
    refine ⟨value.length.toUInt64.toNat, ⟨fun _ => exact, fun _ vint => nomatch vint⟩, ?_⟩
    intro array rest well front
    have reads := reads_readFuint64 platform endian value.length.toUInt64 array rest well front
    show andThen (readFuint64 platform endian array) _ = _
    rw [reads]
    rfl
  | vint =>
    have exact : value.length.toUInt64.toNat = value.length := Nat.mod_eq_of_lt fits
    obtain ⟨read, reads, below, same⟩ := reads_readUint64 platform value.length.toUInt64
    rw [exact] at same
    refine ⟨read.toNat, ⟨?_, ?_⟩, ?_⟩
    · intro short
      rw [same (short rfl), exact]
    · intro equal _
      rw [← equal]
      exact below
    · intro array rest well front
      show andThen (readUint64 platform array) _ = _
      rw [reads array rest well front]
      rfl

variable {platform endian}

section One

variable {text : Text} {rest : List UInt8} (fits : text.Fits) (well : array.WellFormed)
  (front : array.unread = text.encode platform endian ++ rest)

include fits well front

/-- **A string is read back** when it is not empty or the capacity lies behind it. -/
theorem readText_ok (short : text.Short)
    (inside : text.value = [] → array.position + (text.encode platform endian).length <
      array.capacity) :
    readText platform endian array text.length = (.ok text.value,
      array.moveTo (array.position + (text.encode platform endian).length) array.size) := by
  obtain ⟨count, countEq, reads⟩ := readText_eq platform endian fits
  rw [Text.encode, List.append_assoc] at front
  obtain ⟨counted, left⟩ := moveTo_behind well front
  rw [reads array _ well front, countEq.mp short]
  by_cases empty : text.value = []
  · have below := inside empty
    rw [Text.encode, empty, List.append_nil] at below ⊢
    rw [List.length_nil, read_zero counted]
    exact if_neg (Nat.ne_of_lt below)
  · refine (reads_read empty _ rest counted left).trans ?_
    rw [Text.encode, List.length_append, ← Nat.add_assoc]
    rfl

/-- **The empty string at full capacity**: the read of its bytes has no node to look at. -/
theorem readText_nullDeref (empty : text.value = [])
    (full : array.position + (text.encode platform endian).length = array.capacity) :
    (readText platform endian array text.length).1 = .error .nullDeref := by
  obtain ⟨count, countEq, reads⟩ := readText_eq platform endian fits
  rw [Text.encode, List.append_assoc] at front
  obtain ⟨counted, left⟩ := moveTo_behind well front
  have none : count = 0 := by
    rw [countEq.mp (by intro _; rw [empty]; decide), empty, List.length_nil]
  rw [Text.encode, empty, List.append_nil] at full
  rw [reads array _ well front, none, read_zero counted]
  exact congrArg Prod.fst (if_pos full)

/-- **A long string** of variable length is not read back: its length is not. -/
theorem readText_long (long : ¬ text.Short) :
    (readText platform endian array text.length).1 ≠ .ok text.value := by
  obtain ⟨count, countEq, reads⟩ := readText_eq platform endian fits
  rw [Text.encode, List.append_assoc] at front
  obtain ⟨counted, left⟩ := moveTo_behind well front
  rw [reads array _ well front]
  intro same
  exact long (countEq.mpr (length_of_read counted same).symm)

end One

/-! ### Lists of strings -/

theorem encode_ne_nil (text : Text) : text.encode platform endian ≠ [] := by
  have positive := length_encodeLength_pos platform endian text
  intro empty
  rw [Text.encode, List.append_eq_nil_iff] at empty
  rw [empty.1] at positive
  exact absurd positive (by decide)

/-- What an `andThen` that returns has done. -/
theorem andThen_eq_ok {α β : Type} {first : Except Fault α × ByteArray}
    {next : α → ByteArray → Except Fault β × ByteArray} {result : β} {final : ByteArray} :
    andThen first next = (.ok result, final) ↔
      ∃ value middle, first = (.ok value, middle) ∧ next value middle = (.ok result, final) := by
  obtain ⟨reply, middle⟩ := first
  cases reply with
  | error fault =>
    constructor
    · intro run
      cases run
    · rintro ⟨_, _, run, _⟩
      cases run
  | ok value =>
    constructor
    · intro run
      exact ⟨value, middle, rfl, run⟩
    · rintro ⟨_, _, run, rest⟩
      cases run
      exact rest

theorem readTexts_cons (length : Length) (lengths : List Length) (value : List UInt8)
    (values : List (List UInt8)) (final : ByteArray) :
    readTexts platform endian (length :: lengths) array = (.ok (value :: values), final) ↔
      ∃ middle, readText platform endian array length = (.ok value, middle) ∧
        readTexts platform endian lengths middle = (.ok values, final) := by
  rw [readTexts, andThen_eq_ok]
  constructor
  · rintro ⟨first, middle, read, run⟩
    obtain ⟨others, _, rest, same⟩ := andThen_eq_ok.mp run
    cases same
    exact ⟨middle, read, rest⟩
  · rintro ⟨middle, read, rest⟩
    exact ⟨value, middle, read, andThen_eq_ok.mpr ⟨values, final, rest, rfl⟩⟩

/-- **Reading the strings back** from everything that is unread. -/
theorem readTexts_iff {texts : List Text} (fits : ∀ text ∈ texts, text.Fits)
    (well : array.WellFormed)
    (front : array.unread = texts.flatMap (Text.encode platform endian)) :
    (∃ final, readTexts platform endian (texts.map Text.length) array =
        (.ok (texts.map Text.value), final)) ↔
      (∀ text ∈ texts, text.Short) ∧
        ∀ text, texts.getLast? = some text → text.value = [] → array.size < array.capacity := by
  induction texts generalizing array with
  | nil => exact ⟨fun _ => ⟨nofun, nofun⟩, fun _ => ⟨array, rfl⟩⟩
  | cons text texts ih =>
    rw [List.flatMap_cons] at front
    have textFits := fits text List.mem_cons_self
    have total := length_unread well
    have positionLe := well.position_le
    have sizeLe := well.size_le
    rw [front, List.length_append, getReadSize] at total
    obtain ⟨behind, left⟩ := moveTo_behind well front
    have others := ih (fun other mem => fits other (List.mem_cons_of_mem _ mem)) behind left
    by_cases short : text.Short
    · by_cases inside : text.value = [] →
          array.position + (text.encode platform endian).length < array.capacity
      · have read := readText_ok textFits well front short inside
        have step : (∃ final, readTexts platform endian ((text :: texts).map Text.length) array =
              (.ok ((text :: texts).map Text.value), final)) ↔
            ∃ final, readTexts platform endian (texts.map Text.length)
              (array.moveTo (array.position + (text.encode platform endian).length) array.size) =
              (.ok (texts.map Text.value), final) := by
          simp only [List.map_cons, readTexts_cons, read, Prod.mk.injEq, true_and,
            exists_eq_left']
        rw [step, others, List.forall_mem_cons]
        rcases texts with _ | ⟨next, texts⟩
        · constructor
          · rintro ⟨shorts, _⟩
            refine ⟨⟨short, shorts⟩, ?_⟩
            intro last same empty
            cases same
            have below := inside empty
            rw [List.flatMap_nil, List.length_nil] at total
            omega
          · rintro ⟨⟨_, shorts⟩, _⟩
            exact ⟨shorts, nofun⟩
        · rw [List.getLast?_cons_cons]
          exact ⟨fun both => ⟨⟨short, both.1⟩, both.2⟩, fun both => ⟨both.1.2, both.2⟩⟩
      · -- the empty string ends at the capacity: nothing can be behind it
        obtain ⟨empty, past⟩ : text.value = [] ∧
            ¬ array.position + (text.encode platform endian).length < array.capacity := by
          rwa [Classical.not_imp] at inside
        have fault := readText_nullDeref textFits well front empty (by omega)
        have nothing : texts = [] := by
          rcases texts with _ | ⟨next, texts⟩
          · rfl
          · have positive := List.length_pos_iff.mpr (@encode_ne_nil platform endian next)
            rw [List.flatMap_cons, List.length_append] at total
            omega
        subst nothing
        constructor
        · rintro ⟨final, run⟩
          rw [List.map_cons, List.map_cons, readTexts_cons] at run
          obtain ⟨middle, read, _⟩ := run
          rw [read] at fault
          cases fault
        · rintro ⟨_, ends⟩
          have below := ends text rfl empty
          omega
    · constructor
      · rintro ⟨final, run⟩
        rw [List.map_cons, List.map_cons, readTexts_cons] at run
        obtain ⟨middle, read, _⟩ := run
        exact absurd (congrArg Prod.fst read) (readText_long textFits well front short)
      · rintro ⟨shorts, _⟩
        exact absurd (shorts text List.mem_cons_self) short

/-- The capacity behind the writes is just reached when the bytes fill their nodes. -/
theorem size_lt_capacity_iff {content : List UInt8} (atEnd : array.AtEnd content)
    (some_bytes : content ≠ []) :
    array.size < array.capacity ↔ ¬ array.baseSize ∣ content.length := by
  have positive := List.length_pos_iff.mpr some_bytes
  have lengthEq := atEnd.length
  have sizeLe := atEnd.well.size_le
  have basePos := atEnd.well.base_pos
  have capacityEq := atEnd.well.capacity_eq
  constructor
  · rintro below ⟨count, filled⟩
    rcases atEnd.capacity_tight with root | tight
    · have single : array.baseSize * 1 ≤ array.baseSize * count :=
        Nat.mul_le_mul_left _ (Nat.pos_of_ne_zero fun zero => by
          rw [zero, Nat.mul_zero] at filled
          omega)
      omega
    · have more : count < array.nodes.length :=
        Nat.lt_of_mul_lt_mul_left (a := array.baseSize) (by omega)
      have one := Nat.mul_le_mul_left array.baseSize (Nat.succ_le_of_lt more)
      rw [Nat.mul_succ] at one
      omega
  · intro uneven
    by_contra full
    exact uneven ⟨array.nodes.length, by omega⟩

/-- **Strings are read back** exactly when those of variable length have less than `2 ^ 32` bytes and
an empty string at the end does not fill the last node. -/
theorem strings_round_trip_iff (platform : Platform) (val : Bool) {baseSize : Nat}
    (base_pos : 1 ≤ baseSize) (root : Nat → UInt8) (fresh : Nat → Nat → Nat → UInt8)
    (texts : List Text) (fits : ∀ text ∈ texts, text.Fits) :
    (∃ written back final,
      writeTexts platform (setIsLittleEndian val) texts (new baseSize root) fresh =
        (.ok (), written) ∧
      written.setPosition 0 = (.ok (), back) ∧
      readTexts platform (setIsLittleEndian val) (texts.map Text.length) back =
        (.ok (texts.map Text.value), final)) ↔
      (∀ text ∈ texts, text.length = .vint → text.value.length < 2 ^ 32) ∧
        ∀ text, texts.getLast? = some text → text.value = [] →
          ¬ baseSize ∣ (texts.flatMap (Text.encode platform (setIsLittleEndian val))).length := by
  obtain ⟨written, run, atEnd, baseEq⟩ := writeTexts_atEnd platform (setIsLittleEndian val)
    (new_atEnd base_pos root) texts fresh
  rw [List.nil_append] at atEnd
  obtain ⟨rewind, rewound, front⟩ := atEnd.rewind
  have reads := readTexts_iff fits rewound front
  have capacity (text : Text) (last : texts.getLast? = some text) :
      written.size < written.capacity ↔
        ¬ baseSize ∣ (texts.flatMap (Text.encode platform (setIsLittleEndian val))).length := by
    have mem := List.mem_of_getLast? last
    have some_bytes : texts.flatMap (Text.encode platform (setIsLittleEndian val)) ≠ [] := by
      intro empty
      exact encode_ne_nil text (List.flatMap_eq_nil_iff.mp empty text mem)
    have spec := size_lt_capacity_iff atEnd some_bytes
    rwa [baseEq] at spec
  have fromStart : (∃ written back final,
      writeTexts platform (setIsLittleEndian val) texts (new baseSize root) fresh =
        (.ok (), written) ∧
      written.setPosition 0 = (.ok (), back) ∧
      readTexts platform (setIsLittleEndian val) (texts.map Text.length) back =
        (.ok (texts.map Text.value), final)) ↔
      ∃ final, readTexts platform (setIsLittleEndian val) (texts.map Text.length)
        (written.moveTo 0 written.size) = (.ok (texts.map Text.value), final) := by
    constructor
    · rintro ⟨other, back, final, wrote, reset, read⟩
      rw [run] at wrote
      cases wrote
      rw [rewind] at reset
      cases reset
      exact ⟨final, read⟩
    · rintro ⟨final, read⟩
      exact ⟨written, _, final, run, rewind, read⟩
  rw [fromStart, reads]
  refine and_congr_right fun _ => forall_congr' fun text => ?_
  constructor
  · intro ends last empty
    exact (capacity text last).mp (ends last empty)
  · intro ends last empty
    exact (capacity text last).mpr (ends last empty)

/-- An empty string between others, and one at the end of a half-filled node. -/
theorem strings_round_trip_half :
    ∃ written back final,
      writeTexts machine (setIsLittleEndian false) [⟨.f16, [7]⟩, ⟨.vint, []⟩, ⟨.f16, []⟩]
        (new 4 fun _ => 0) (fun _ _ _ => 0) = (.ok (), written) ∧
      written.setPosition 0 = (.ok (), back) ∧
      readTexts machine (setIsLittleEndian false) [.f16, .vint, .f16] back =
        (.ok [[7], [], []], final) := by
  have fits : ∀ text ∈ [(⟨.f16, [7]⟩ : Text), ⟨.vint, []⟩, ⟨.f16, []⟩], text.Fits := by decide
  refine (strings_round_trip_iff machine false (by decide) (fun _ => 0) (fun _ _ _ => 0) _
    fits).mpr ⟨by decide, ?_⟩
  intro text _ _
  decide

/-- **An empty string that fills the only node** is read through a null pointer. -/
theorem empty_string_nullDeref :
    ¬ ∃ written back final,
      writeTexts machine (setIsLittleEndian false) [⟨.f16, []⟩] (new 2 fun _ => 0) (fun _ _ _ => 0) =
        (.ok (), written) ∧
      written.setPosition 0 = (.ok (), back) ∧
      readTexts machine (setIsLittleEndian false) [.f16] back = (.ok [[]], final) := by
  have fault : (andThen (writeTexts machine (setIsLittleEndian false) [⟨.f16, []⟩] (new 2 fun _ => 0)
      fun _ _ _ => 0) fun _ written => andThen (written.setPosition 0) fun _ back =>
        readTexts machine (setIsLittleEndian false) [.f16] back).1 = .error .nullDeref := by
    decide +kernel
  rintro ⟨written, back, final, wrote, reset, read⟩
  unfold andThen at fault
  simp only [wrote, reset, read, reduceCtorEq] at fault

end Wyze.ByteArray
