/-
**What was written is read back.**

`write_front` says what a write leaves in front of the position; from it, `AtEnd` carries what a
sequence of writes has put into a new array, and `unread_behind` what a reader finds when the position
goes back. `values_round_trip` reads back every mixed list of values. `uint64_round_trip_iff` says for
which 64-bit values the variable-length form does: `readUint64` shifts 32-bit words, so those of more
than 32 bits are lost.
-/
import Mathlib.Data.UInt
import Wyze.ByteArray.Stream

namespace Wyze.ByteArray

open Blocks Encoding

variable {array next : ByteArray}

/-! ### Writing -/

/-- Reserving adds storage behind what there is, less than a node more than is asked for. -/
theorem reserve_store {flat : Flat} (base_pos : 1 ≤ flat.baseSize)
    (inside : flat.position ≤ flat.store.length) (size : Nat) (fresh : Nat → UInt8) :
    ∃ added, (flat.reserve size fresh).store = flat.store ++ added ∧
      flat.position + size ≤ (flat.store ++ added).length ∧
      (added = [] ∨ (flat.store ++ added).length < flat.position + size + flat.baseSize) := by
  obtain ⟨need, less⟩ := nodeCount_bounds base_pos (size - (flat.store.length - flat.position))
  unfold Flat.reserve
  dsimp only
  split
  · refine ⟨[], (List.append_nil _).symm, ?_, Or.inl rfl⟩
    rw [List.append_nil]
    omega
  · refine ⟨_, rfl, ?_, Or.inr ?_⟩
    · rw [List.length_append, List.length_map, List.length_range]
      omega
    · rw [List.length_append, List.length_map, List.length_range]
      omega

/-- What a write changes: the bytes up to the new position, the counters, and the capacity, which
grows by less than a node more than is needed. -/
structure Wrote (array : ByteArray) (buf : List UInt8) (next : ByteArray) : Prop where
  well : next.WellFormed
  base_eq : next.baseSize = array.baseSize
  position_eq : next.position = array.position + buf.length
  size_eq : next.size = max array.size next.position
  front : (storage next.nodes).take next.position = (storage array.nodes).take array.position ++ buf
  capacity_tight : next.capacity = array.capacity ∨ next.capacity < next.position + next.baseSize

theorem write_front (well : array.WellFormed) (buf : List UInt8) (fresh : Nat → UInt8) :
    ∃ next, array.write buf fresh = (.ok (), next) ∧ Wrote array buf next := by
  by_cases empty : buf = []
  · subst empty
    refine ⟨array, rfl, ⟨well, rfl, rfl, ?_, (List.append_nil _).symm, Or.inl rfl⟩⟩
    exact (Nat.max_eq_left well.position_le).symm
  obtain ⟨next, run, grown, flatEq⟩ := write_spec well buf fresh
  rw [Flat.write, if_neg empty] at flatEq
  have roomLe := well.position_le_capacity
  rw [← well.length_storage] at roomLe
  obtain ⟨added, reserved, room, tight⟩ :=
    @reserve_store array.flat well.base_pos roomLe buf.length fresh
  have baseEq : next.baseSize = array.baseSize := by
    have same := congrArg Flat.baseSize flatEq
    unfold Flat.reserve at same
    dsimp only at same
    split at same
    · exact same
    · exact same
  have positionEq : next.position = array.position + buf.length := congrArg Flat.position flatEq
  have sizeEq : next.size = max array.size (array.position + buf.length) :=
    congrArg Flat.size flatEq
  have storeEq : storage next.nodes =
      overwrite (storage array.nodes ++ added) array.position buf := by
    have same := congrArg Flat.store flatEq
    dsimp only at same
    rwa [reserved] at same
  have lengthEq : next.capacity = (storage array.nodes ++ added).length := by
    rw [← grown.length_storage, storeEq]
    exact length_overwrite room
  refine ⟨next, run, ⟨grown, baseEq, positionEq, ?_, ?_, ?_⟩⟩
  · rw [sizeEq, positionEq]
  · have within : array.position ≤ (storage array.nodes ++ added).length := by
      rw [List.length_append]
      omega
    rw [positionEq, storeEq, take_overwrite within, List.take_append_of_le_length roomLe]
  · rw [lengthEq, positionEq, baseEq]
    rcases tight with none | less
    · left
      rw [none, List.append_nil, well.length_storage]
    · exact Or.inr less

/-- **Back at the start of a write** what was written is unread. -/
theorem unread_behind (well : array.WellFormed) {buf : List UInt8} (wrote : Wrote array buf next) :
    next.setPosition array.position = (.ok (), next.moveTo array.position next.size) ∧
      (next.moveTo array.position next.size).WellFormed ∧
      ∃ rest, (next.moveTo array.position next.size).unread = buf ++ rest := by
  have positionEq := wrote.position_eq
  have sizeEq := wrote.size_eq
  have room := wrote.well.size_le
  have startLe := well.position_le_capacity
  have spec := setPosition_spec wrote.well array.position
  rw [if_neg (by omega), Nat.max_eq_left (by omega)] at spec
  refine ⟨spec, moveTo_wellFormed wrote.well (by omega) room, ?_⟩
  refine ⟨(storage next.nodes).drop next.position |>.take (next.size - next.position), ?_⟩
  have start : ((storage array.nodes).take array.position).length = array.position := by
    rw [List.length_take, well.length_storage, Nat.min_eq_left startLe]
  have whole := List.take_append_drop next.position (storage next.nodes)
  rw [wrote.front, List.append_assoc] at whole
  unfold unread Flat.slice getReadSize
  show ((storage next.nodes).drop array.position).take (next.size - array.position) = _
  conv_lhs => rw [← whole, List.drop_left' start]
  rw [List.take_append, List.take_of_length_le (by omega)]
  congr 2
  omega

/-! ### One number of variable length -/

variable {α : Type}

/-- Write, go back to where the write began and read: the value read, and the positions behind the
write and behind the read. -/
def readBack (write : ByteArray → (Nat → UInt8) → Except Fault Unit × ByteArray)
    (read : ByteArray → Except Fault α × ByteArray) (array : ByteArray) (fresh : Nat → UInt8) :
    Except Fault (α × Nat × Nat) :=
  (andThen (write array fresh) fun _ written =>
    andThen (written.setPosition array.position) fun _ back =>
      andThen (read back) fun value final =>
        (.ok (value, written.getPosition, final.getPosition), final)).1

/-- What is read back is the value, and the position is behind the bytes written. -/
def ReadsBack (write : ByteArray → (Nat → UInt8) → Except Fault Unit × ByteArray)
    (read : ByteArray → Except Fault α × ByteArray) (array : ByteArray) (fresh : Nat → UInt8)
    (value : α) : Prop :=
  ∃ behind, readBack write read array fresh = .ok (value, behind, behind)

theorem readsBack_iff (well : array.WellFormed) (fresh : Nat → UInt8) {buf : List UInt8}
    {read : ByteArray → Except Fault α × ByteArray} {back : α} (reads : Reads read buf back)
    (value : α) : ReadsBack (fun array fresh => array.write buf fresh) read array fresh value ↔
      back = value := by
  obtain ⟨next, run, wrote⟩ := write_front well buf fresh
  obtain ⟨rewind, rewound, rest, front⟩ := unread_behind well wrote
  have result : readBack (fun array fresh => array.write buf fresh) read array fresh =
      .ok (back, next.position, next.position) := by
    unfold readBack andThen
    simp only [run, rewind, reads _ rest rewound front]
    show Except.ok (back, next.position, array.position + buf.length) = _
    rw [wrote.position_eq]
  unfold ReadsBack
  rw [result]
  constructor
  · rintro ⟨behind, same⟩
    cases same
    rfl
  · intro same
    exact ⟨next.position, by rw [same]⟩

/-- **`readUint64` and `readInt64` give back exactly the values of 32 bits**, whatever the machine
makes of the shifts beyond 32 bits. -/
theorem uint64_round_trip_iff (platform : Platform) (well : array.WellFormed)
    (fresh : Nat → UInt8) :
    (∀ v : UInt64, ReadsBack (writeUint64 v) (readUint64 platform) array fresh v ↔
      v.toNat < 2 ^ 32) ∧
    (∀ v : Int64, ReadsBack (writeInt64 v) (readInt64 platform) array fresh v ↔
      -2 ^ 31 ≤ v.toInt ∧ v.toInt < 2 ^ 31) := by
  constructor
  · intro v
    obtain ⟨read, reads, below, same⟩ := reads_readUint64 platform v
    refine (readsBack_iff well fresh reads v).trans ⟨?_, same⟩
    intro equal
    rwa [← equal]
  · intro v
    obtain ⟨read, reads, below, same⟩ := reads_readUint64 platform (encodeZigzag64 v)
    refine (readsBack_iff well fresh (reads.map decodeZigzag64) v).trans ?_
    rw [← encodeZigzag64_lt_iff]
    constructor
    · intro equal
      rwa [← equal, encodeZigzag64_decodeZigzag64]
    · intro small
      rw [same small, decodeZigzag64_encodeZigzag64]

/-- A machine that stores the lowest byte first and takes shifts modulo 32. -/
def machine : Platform := ⟨.little, fun byte i => byte.toUInt32 <<< (i % 32).toUInt32⟩

/-- The smallest numbers and the largest on an array whose nodes the write fills. -/
theorem uint64_round_trip_full :
    ReadsBack (writeUint64 (2 ^ 32 - 1)) (readUint64 machine) (new 5 fun _ => 0) (fun _ => 0)
        (2 ^ 32 - 1) ∧
      ReadsBack (writeInt64 (-2 ^ 31)) (readInt64 machine) (new 5 fun _ => 0) (fun _ => 0)
        (-2 ^ 31) := by
  have well := @new_wellFormed 5 (by decide) fun _ => 0
  have both := uint64_round_trip_iff machine well fun _ => 0
  exact ⟨(both.1 _).mpr (by decide), (both.2 _).mpr (by decide)⟩

/-- The smallest number that is lost comes back as zero: its last group is shifted by 28 bits. -/
theorem uint64_lost :
    readBack (writeUint64 (2 ^ 32)) (readUint64 machine) (new 16 fun _ => 0) (fun _ => 0) =
        .ok (0, 5, 5) ∧
      ¬ ReadsBack (writeUint64 (2 ^ 32)) (readUint64 machine) (new 16 fun _ => 0) (fun _ => 0)
        (2 ^ 32) := by
  have run : readBack (writeUint64 (2 ^ 32)) (readUint64 machine) (new 16 fun _ => 0) (fun _ => 0) =
      .ok (0, 5, 5) := by
    decide +kernel
  refine ⟨run, ?_⟩
  rintro ⟨behind, same⟩
  rw [run] at same
  have zero : (0 : UInt64) = 2 ^ 32 := congrArg Prod.fst (Except.ok.inj same)
  exact absurd zero (by decide)

/-! ### Lists of values -/

/-- A value and the function that writes it; `float` and `double` carry their bits. -/
inductive Value where
  | fint8 (value : Int8)
  | fuint8 (value : UInt8)
  | fint16 (value : Int16)
  | fuint16 (value : UInt16)
  | fint32 (value : Int32)
  | fuint32 (value : UInt32)
  | fint64 (value : Int64)
  | fuint64 (value : UInt64)
  | int32 (value : Int32)
  | uint32 (value : UInt32)
  | float (bits : UInt32)
  | double (bits : UInt64)
  deriving DecidableEq, Repr

/-- The reader that matches a writer. -/
inductive Kind where
  | fint8
  | fuint8
  | fint16
  | fuint16
  | fint32
  | fuint32
  | fint64
  | fuint64
  | int32
  | uint32
  | float
  | double
  deriving DecidableEq, Repr

def Value.kind : Value → Kind
  | .fint8 _ => .fint8
  | .fuint8 _ => .fuint8
  | .fint16 _ => .fint16
  | .fuint16 _ => .fuint16
  | .fint32 _ => .fint32
  | .fuint32 _ => .fuint32
  | .fint64 _ => .fint64
  | .fuint64 _ => .fuint64
  | .int32 _ => .int32
  | .uint32 _ => .uint32
  | .float _ => .float
  | .double _ => .double

variable (platform : Platform) (endian : Endian)

def writeValue : Value → ByteArray → (Nat → UInt8) → Except Fault Unit × ByteArray
  | .fint8 value => writeFint8 value
  | .fuint8 value => writeFuint8 value
  | .fint16 value => writeFint16 platform endian value
  | .fuint16 value => writeFuint16 platform endian value
  | .fint32 value => writeFint32 platform endian value
  | .fuint32 value => writeFuint32 platform endian value
  | .fint64 value => writeFint64 platform endian value
  | .fuint64 value => writeFuint64 platform endian value
  | .int32 value => writeInt32 value
  | .uint32 value => writeUint32 value
  | .float bits => writeFloat platform endian bits
  | .double bits => writeDouble platform endian bits

def readValue (array : ByteArray) : Kind → Except Fault Value × ByteArray
  | .fint8 => andThen array.readFint8 fun v array => (.ok (.fint8 v), array)
  | .fuint8 => andThen array.readFuint8 fun v array => (.ok (.fuint8 v), array)
  | .fint16 => andThen (readFint16 platform endian array) fun v array => (.ok (.fint16 v), array)
  | .fuint16 => andThen (readFuint16 platform endian array) fun v array => (.ok (.fuint16 v), array)
  | .fint32 => andThen (readFint32 platform endian array) fun v array => (.ok (.fint32 v), array)
  | .fuint32 => andThen (readFuint32 platform endian array) fun v array => (.ok (.fuint32 v), array)
  | .fint64 => andThen (readFint64 platform endian array) fun v array => (.ok (.fint64 v), array)
  | .fuint64 => andThen (readFuint64 platform endian array) fun v array => (.ok (.fuint64 v), array)
  | .int32 => andThen (readInt32 platform array) fun v array => (.ok (.int32 v), array)
  | .uint32 => andThen (readUint32 platform array) fun v array => (.ok (.uint32 v), array)
  | .float => andThen (readFloat platform endian array) fun v array => (.ok (.float v), array)
  | .double => andThen (readDouble platform endian array) fun v array => (.ok (.double v), array)

/-- Write the values one behind the other; the writes may allocate the storage `fresh 0`, `fresh 1`, … -/
def writeValues : List Value → ByteArray → (Nat → Nat → UInt8) → Except Fault Unit × ByteArray
  | [], array, _ => (.ok (), array)
  | value :: values, array, fresh =>
    andThen (writeValue platform endian value array (fresh 0)) fun _ array =>
      writeValues values array fun count => fresh (count + 1)

def readValues : List Kind → ByteArray → Except Fault (List Value) × ByteArray
  | [], array => (.ok [], array)
  | kind :: kinds, array =>
    andThen (readValue platform endian array kind) fun value array =>
      andThen (readValues kinds array) fun values array => (.ok (value :: values), array)

/-- The bytes of a value. -/
def Value.encode : Value → List UInt8
  | .fint8 value => [value.toUInt8]
  | .fuint8 value => [value]
  | .fint16 value => platform.store 2 (ordered platform endian 2 value.toUInt16.toNat)
  | .fuint16 value => platform.store 2 (ordered platform endian 2 value.toNat)
  | .fint32 value => platform.store 4 (ordered platform endian 4 value.toUInt32.toNat)
  | .fuint32 value => platform.store 4 (ordered platform endian 4 value.toNat)
  | .fint64 value => platform.store 8 (ordered platform endian 8 value.toUInt64.toNat)
  | .fuint64 value => platform.store 8 (ordered platform endian 8 value.toNat)
  | .int32 value => groups 4 (encodeZigzag32 value).toNat
  | .uint32 value => groups 4 value.toNat
  | .float bits => platform.store 4 (ordered platform endian 4 bits.toNat)
  | .double bits => platform.store 8 (ordered platform endian 8 bits.toNat)

theorem writeValue_eq (value : Value) (array : ByteArray) (fresh : Nat → UInt8) :
    writeValue platform endian value array fresh =
      array.write (value.encode platform endian) fresh := by
  cases value <;> rfl

theorem reads_readFuint16 (value : UInt16) : Reads (readFuint16 platform endian)
    (platform.store 2 (ordered platform endian 2 value.toNat)) value := by
  have fits : value.toNat < 256 ^ 2 := value.toNat_lt
  have read := (reads_readFixed platform endian (by decide) fits).map Nat.toUInt16
  rwa [Nat.toUInt16, UInt16.ofNat_toNat] at read

theorem reads_readFint16 (value : Int16) : Reads (readFint16 platform endian)
    (platform.store 2 (ordered platform endian 2 value.toUInt16.toNat)) value := by
  have fits : value.toUInt16.toNat < 256 ^ 2 := value.toUInt16.toNat_lt
  have read := (reads_readFixed platform endian (by decide) fits).map fun v => v.toUInt16.toInt16
  rwa [Nat.toUInt16, UInt16.ofNat_toNat, Int16.toInt16_toUInt16] at read

theorem reads_readFuint32 (value : UInt32) : Reads (readFuint32 platform endian)
    (platform.store 4 (ordered platform endian 4 value.toNat)) value := by
  have fits : value.toNat < 256 ^ 4 := value.toNat_lt
  have read := (reads_readFixed platform endian (by decide) fits).map Nat.toUInt32
  rwa [Nat.toUInt32, UInt32.ofNat_toNat] at read

theorem reads_readFint32 (value : Int32) : Reads (readFint32 platform endian)
    (platform.store 4 (ordered platform endian 4 value.toUInt32.toNat)) value := by
  have fits : value.toUInt32.toNat < 256 ^ 4 := value.toUInt32.toNat_lt
  have read := (reads_readFixed platform endian (by decide) fits).map fun v => v.toUInt32.toInt32
  rwa [Nat.toUInt32, UInt32.ofNat_toNat, Int32.toInt32_toUInt32] at read

theorem reads_readFuint64 (value : UInt64) : Reads (readFuint64 platform endian)
    (platform.store 8 (ordered platform endian 8 value.toNat)) value := by
  have fits : value.toNat < 256 ^ 8 := value.toNat_lt
  have read := (reads_readFixed platform endian (by decide) fits).map Nat.toUInt64
  rwa [Nat.toUInt64, UInt64.ofNat_toNat] at read

theorem reads_readFint64 (value : Int64) : Reads (readFint64 platform endian)
    (platform.store 8 (ordered platform endian 8 value.toUInt64.toNat)) value := by
  have fits : value.toUInt64.toNat < 256 ^ 8 := value.toUInt64.toNat_lt
  have read := (reads_readFixed platform endian (by decide) fits).map fun v => v.toUInt64.toInt64
  rwa [Nat.toUInt64, UInt64.ofNat_toNat, Int64.toInt64_toUInt64] at read

theorem reads_readInt32 (value : Int32) :
    Reads (readInt32 platform) (groups 4 (encodeZigzag32 value).toNat) value := by
  have read := (reads_readUint32 platform (encodeZigzag32 value)).map decodeZigzag32
  rwa [decodeZigzag32_encodeZigzag32] at read

/-- **Every reader takes the bytes of its writer** as the value written. -/
theorem reads_readValue (value : Value) :
    Reads (readValue platform endian · value.kind) (value.encode platform endian) value := by
  cases value with
  | fint8 value => exact ((reads_readFuint8 value.toUInt8).map UInt8.toInt8).map Value.fint8
  | fuint8 value => exact (reads_readFuint8 value).map Value.fuint8
  | fint16 value => exact (reads_readFint16 platform endian value).map Value.fint16
  | fuint16 value => exact (reads_readFuint16 platform endian value).map Value.fuint16
  | fint32 value => exact (reads_readFint32 platform endian value).map Value.fint32
  | fuint32 value => exact (reads_readFuint32 platform endian value).map Value.fuint32
  | fint64 value => exact (reads_readFint64 platform endian value).map Value.fint64
  | fuint64 value => exact (reads_readFuint64 platform endian value).map Value.fuint64
  | int32 value => exact (reads_readInt32 platform value).map Value.int32
  | uint32 value => exact (reads_readUint32 platform value).map Value.uint32
  | float bits => exact (reads_readFuint32 platform endian bits).map Value.float
  | double bits => exact (reads_readFuint64 platform endian bits).map Value.double

theorem reads_readValues (values : List Value) :
    Reads (readValues platform endian (values.map Value.kind))
      (values.flatMap (Value.encode platform endian)) values := by
  induction values with
  | nil => exact reads_ok []
  | cons value values ih =>
    exact (reads_readValue platform endian value).andThen (ih.map (value :: ·))

/-! ### A new array -/

/-- The position is the size, and these bytes lie in front of it; the capacity is no more than a node
larger than they need. -/
structure AtEnd (array : ByteArray) (content : List UInt8) : Prop where
  well : array.WellFormed
  position_eq : array.position = array.size
  content_eq : (storage array.nodes).take array.position = content
  capacity_tight : array.capacity = array.baseSize ∨ array.capacity < array.size + array.baseSize

theorem AtEnd.length {content : List UInt8} (atEnd : array.AtEnd content) :
    content.length = array.size := by
  have positionEq := atEnd.position_eq
  have inside := atEnd.well.position_le_capacity
  rw [← atEnd.content_eq, List.length_take, atEnd.well.length_storage]
  omega

theorem new_atEnd {baseSize : Nat} (base_pos : 1 ≤ baseSize) (fresh : Nat → UInt8) :
    (new baseSize fresh).AtEnd [] :=
  ⟨new_wellFormed base_pos fresh, rfl, List.take_zero, Or.inl rfl⟩

theorem AtEnd.write {content : List UInt8} (atEnd : array.AtEnd content) (buf : List UInt8)
    (fresh : Nat → UInt8) : ∃ next, array.write buf fresh = (.ok (), next) ∧
      next.AtEnd (content ++ buf) ∧ next.baseSize = array.baseSize := by
  obtain ⟨next, run, wrote⟩ := write_front atEnd.well buf fresh
  have positionEq := atEnd.position_eq
  have nextPosition := wrote.position_eq
  have nextSize := wrote.size_eq
  have baseEq := wrote.base_eq
  refine ⟨next, run, ⟨wrote.well, ?_, ?_, ?_⟩, baseEq⟩
  · omega
  · rw [wrote.front, atEnd.content_eq]
  · have before := atEnd.capacity_tight
    have after := wrote.capacity_tight
    omega

/-- Back at the start everything written is unread. -/
theorem AtEnd.rewind {content : List UInt8} (atEnd : array.AtEnd content) :
    array.setPosition 0 = (.ok (), array.moveTo 0 array.size) ∧
      (array.moveTo 0 array.size).WellFormed ∧ (array.moveTo 0 array.size).unread = content := by
  have spec := setPosition_spec atEnd.well 0
  rw [if_neg (by omega), Nat.max_eq_left (Nat.zero_le _)] at spec
  refine ⟨spec, moveTo_wellFormed atEnd.well (Nat.zero_le _) atEnd.well.size_le, ?_⟩
  rw [← atEnd.content_eq, atEnd.position_eq]
  rfl

theorem writeValues_atEnd {content : List UInt8} (atEnd : array.AtEnd content) (values : List Value)
    (fresh : Nat → Nat → UInt8) : ∃ next, writeValues platform endian values array fresh =
      (.ok (), next) ∧ next.AtEnd (content ++ values.flatMap (Value.encode platform endian)) := by
  induction values generalizing array content fresh with
  | nil => exact ⟨array, rfl, by rwa [List.flatMap_nil, List.append_nil]⟩
  | cons value values ih =>
    obtain ⟨written, run, writtenEnd, -⟩ := atEnd.write (value.encode platform endian) (fresh 0)
    obtain ⟨next, others, nextEnd⟩ := ih writtenEnd fun count => fresh (count + 1)
    refine ⟨next, ?_, ?_⟩
    · rw [writeValues, writeValue_eq, run]
      exact others
    · rwa [List.flatMap_cons, ← List.append_assoc]

/-- **Every mixed list of values is read back** from the start of the array, from exactly the bytes
that were written. -/
theorem values_round_trip (platform : Platform) (val : Bool) {baseSize : Nat}
    (base_pos : 1 ≤ baseSize) (root : Nat → UInt8) (fresh : Nat → Nat → UInt8)
    (values : List Value) :
    ∃ written back final,
      writeValues platform (setIsLittleEndian val) values (new baseSize root) fresh =
        (.ok (), written) ∧
      written.setPosition 0 = (.ok (), back) ∧
      readValues platform (setIsLittleEndian val) (values.map Value.kind) back =
        (.ok values, final) ∧
      final.getPosition = written.getPosition ∧ final.getReadSize = 0 := by
  obtain ⟨written, run, atEnd⟩ := writeValues_atEnd platform (setIsLittleEndian val)
    (new_atEnd base_pos root) values fresh
  rw [List.nil_append] at atEnd
  obtain ⟨rewind, rewound, front⟩ := atEnd.rewind
  have lengthEq := atEnd.length
  have reads := reads_readValues platform (setIsLittleEndian val) values _ [] rewound
    (front.trans (List.append_nil _).symm)
  refine ⟨written, _, _, run, rewind, reads, ?_, ?_⟩
  · show 0 + _ = written.position
    rw [lengthEq, atEnd.position_eq, Nat.zero_add]
  · show written.size - (0 + _) = 0
    rw [lengthEq]
    omega

/-- Numbers of every size on nodes of three bytes. -/
theorem values_round_trip_small :
    ∃ written back final,
      writeValues machine (setIsLittleEndian false)
          [.fint8 (-1), .fint32 (-2 ^ 31), .int32 (-2 ^ 31), .uint32 (2 ^ 32 - 1)]
          (new 3 fun _ => 0) (fun _ _ => 0) = (.ok (), written) ∧
      written.setPosition 0 = (.ok (), back) ∧
      readValues machine (setIsLittleEndian false) [.fint8, .fint32, .int32, .uint32] back =
        (.ok [.fint8 (-1), .fint32 (-2 ^ 31), .int32 (-2 ^ 31), .uint32 (2 ^ 32 - 1)], final) ∧
      final.getPosition = written.getPosition ∧ final.getReadSize = 0 :=
  values_round_trip machine false (by decide) _ _ _

end Wyze.ByteArray
