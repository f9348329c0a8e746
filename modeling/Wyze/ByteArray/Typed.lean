/-
**The typed reads and writes of `bytearray.cpp`.**

Every function is a plain `write` or `read` of the bytes of a value. A number of fixed width is swapped
when `m_endian` is not the byte order of the machine; `writeInt32` and its kind go through zigzag and
groups of seven bits; a string is its length, by one of four writers, and its bytes.

`m_endian` is an argument: only `setIsLittleEndian` changes it. `Platform` holds what the compiler and
the machine fix. `readUint64` shifts a `uint32_t` by up to 63 bits; from 32 on the language leaves the
value open, and `Platform.overShift` is whatever comes out.
-/
import Wyze.ByteArray.Basic
import Wyze.Lib.Encoding

namespace Wyze

open Encoding

/-- `WYZE_LITTLE_ENDIAN` and `WYZE_BIG_ENDIAN`. -/
inductive Endian where
  | little
  | big
  deriving DecidableEq, Repr

structure Platform where
  /-- `WYZE_BYTE_ORDER`. -/
  byteOrder : Endian
  /-- `(uint32_t)byte << i` for an `i` from 32 on. -/
  overShift : UInt8 → Nat → UInt32

namespace Platform

/-- The bytes of a value in memory, as `memcpy` sees them. -/
def store (platform : Platform) (width value : Nat) : List UInt8 :=
  match platform.byteOrder with
  | .little => toBytes width value
  | .big => (toBytes width value).reverse

/-- The value in memory that has these bytes. -/
def load (platform : Platform) (bytes : List UInt8) : Nat :=
  match platform.byteOrder with
  | .little => ofBytes bytes
  | .big => ofBytes bytes.reverse

/-- `(uint32_t)byte << i`. -/
def shiftLeft32 (platform : Platform) (byte : UInt8) (i : Nat) : UInt32 :=
  if i < 32 then byte.toUInt32 <<< i.toUInt32 else platform.overShift byte i

end Platform

/-- `byteswap` for `sizeof(T) == width`: the `bswap_16`, `bswap_32` and `bswap_64` of `endian.h`. -/
def byteswap (width value : Nat) : Nat := swap width value

def encodeZigzag32 (v : Int32) : UInt32 :=
  if v < 0 then (-v).toUInt32 * 2 - 1 else (v * 2).toUInt32

def encodeZigzag64 (v : Int64) : UInt64 :=
  if v < 0 then (-v).toUInt64 * 2 - 1 else (v * 2).toUInt64

def decodeZigzag32 (v : UInt32) : Int32 := ((v >>> 1) ^^^ -(v &&& 1)).toInt32

def decodeZigzag64 (v : UInt64) : Int64 := ((v >>> 1) ^^^ -(v &&& 1)).toInt64

namespace ByteArray

/-- `setIsLittleEndian`: the `m_endian` it leaves. The constructor leaves the big one. -/
def setIsLittleEndian (val : Bool) : Endian := if val then .little else .big

/-- Two statements in a row: an exception in the first one skips the second. -/
def andThen {α β : Type} (first : Except Fault α × ByteArray)
    (next : α → ByteArray → Except Fault β × ByteArray) : Except Fault β × ByteArray :=
  match first with
  | (.ok value, array) => next value array
  | (.error fault, array) => (.error fault, array)

variable (platform : Platform) (endian : Endian)

/-! ### Fixed width -/

/-- `if(m_endian != WYZE_BYTE_ORDER) value = byteswap(value);` -/
def ordered (width value : Nat) : Nat :=
  if endian ≠ platform.byteOrder then byteswap width value else value

/-- The body of `writeFint16` to `writeFuint64`. -/
def writeFixed (width value : Nat) (array : ByteArray) (fresh : Nat → UInt8) :
    Except Fault Unit × ByteArray :=
  array.write (platform.store width (ordered platform endian width value)) fresh

/-- The macro `XX` of `readFint16` to `readFuint64`. -/
def readFixed (width : Nat) (array : ByteArray) : Except Fault Nat × ByteArray :=
  andThen (array.read width) fun bytes array =>
    (.ok (ordered platform endian width (platform.load bytes)), array)

def writeFint8 (value : Int8) (array : ByteArray) (fresh : Nat → UInt8) :=
  array.write [value.toUInt8] fresh

def writeFuint8 (value : UInt8) (array : ByteArray) (fresh : Nat → UInt8) :=
  array.write [value] fresh

def writeFint16 (value : Int16) := writeFixed platform endian 2 value.toUInt16.toNat
def writeFuint16 (value : UInt16) := writeFixed platform endian 2 value.toNat
def writeFint32 (value : Int32) := writeFixed platform endian 4 value.toUInt32.toNat
def writeFuint32 (value : UInt32) := writeFixed platform endian 4 value.toNat
def writeFint64 (value : Int64) := writeFixed platform endian 8 value.toUInt64.toNat
def writeFuint64 (value : UInt64) := writeFixed platform endian 8 value.toNat

def readFuint8 (array : ByteArray) : Except Fault UInt8 × ByteArray :=
  andThen (array.read 1) fun bytes array => (.ok (bytes.headD 0), array)

def readFint8 (array : ByteArray) : Except Fault Int8 × ByteArray :=
  andThen array.readFuint8 fun v array => (.ok v.toInt8, array)

def readFuint16 (array : ByteArray) : Except Fault UInt16 × ByteArray :=
  andThen (readFixed platform endian 2 array) fun v array => (.ok v.toUInt16, array)

def readFint16 (array : ByteArray) : Except Fault Int16 × ByteArray :=
  andThen (readFixed platform endian 2 array) fun v array => (.ok v.toUInt16.toInt16, array)

def readFuint32 (array : ByteArray) : Except Fault UInt32 × ByteArray :=
  andThen (readFixed platform endian 4 array) fun v array => (.ok v.toUInt32, array)

def readFint32 (array : ByteArray) : Except Fault Int32 × ByteArray :=
  andThen (readFixed platform endian 4 array) fun v array => (.ok v.toUInt32.toInt32, array)

def readFuint64 (array : ByteArray) : Except Fault UInt64 × ByteArray :=
  andThen (readFixed platform endian 8 array) fun v array => (.ok v.toUInt64, array)

def readFint64 (array : ByteArray) : Except Fault Int64 × ByteArray :=
  andThen (readFixed platform endian 8 array) fun v array => (.ok v.toUInt64.toInt64, array)

/-- `writeFloat` and `writeDouble` take the bits of the number: `memcpy` copies nothing else. -/
def writeFloat (value : UInt32) := writeFuint32 platform endian value
def writeDouble (value : UInt64) := writeFuint64 platform endian value

def readFloat (array : ByteArray) := readFuint32 platform endian array
def readDouble (array : ByteArray) := readFuint64 platform endian array

/-! ### Groups of seven bits -/

/-- `tmp` has room for five bytes: four with the high bit set and the last one. -/
def writeUint32 (value : UInt32) (array : ByteArray) (fresh : Nat → UInt8) :=
  array.write (groups 4 value.toNat) fresh

def writeUint64 (value : UInt64) (array : ByteArray) (fresh : Nat → UInt8) :=
  array.write (groups 9 value.toNat) fresh

def writeInt32 (value : Int32) := writeUint32 (encodeZigzag32 value)
def writeInt64 (value : Int64) := writeUint64 (encodeZigzag64 value)

/-- The shifts of `for(int i = 0; i < bits; i += 7)`. -/
def groupShifts (bits : Nat) : List Nat := shiftsFrom 0 ((bits + 6) / 7)

/-- The loop of `readUint32` and `readUint64`: `place` is what an iteration adds to `result`. -/
def groupsLoop {ω : Type} [OrOp ω] (place : UInt8 → Nat → ω) :
    List Nat → ω → ByteArray → Except Fault ω × ByteArray
  | [], result, array => (.ok result, array)
  | i :: shifts, result, array =>
    andThen array.readFuint8 fun b array =>
      if b < 0x80 then (.ok (result ||| place b i), array)
      else groupsLoop place shifts (result ||| place (b &&& 0x7F) i) array

def readUint32 (array : ByteArray) : Except Fault UInt32 × ByteArray :=
  groupsLoop platform.shiftLeft32 (groupShifts 32) 0 array

/-- The shift is one of a `uint32_t` here too: only its result is widened. -/
def readUint64 (array : ByteArray) : Except Fault UInt64 × ByteArray :=
  groupsLoop (fun b i => (platform.shiftLeft32 b i).toUInt64) (groupShifts 64) 0 array

def readInt32 (array : ByteArray) : Except Fault Int32 × ByteArray :=
  andThen (readUint32 platform array) fun v array => (.ok (decodeZigzag32 v), array)

def readInt64 (array : ByteArray) : Except Fault Int64 × ByteArray :=
  andThen (readUint64 platform array) fun v array => (.ok (decodeZigzag64 v), array)

/-! ### Strings -/

/-- A length and the bytes of a string: two writes, each with the storage it may allocate. -/
def writeString (length : ByteArray → (Nat → UInt8) → Except Fault Unit × ByteArray)
    (value : List UInt8) (array : ByteArray) (fresh : Nat → Nat → UInt8) :
    Except Fault Unit × ByteArray :=
  andThen (length array (fresh 0)) fun _ array => array.write value (fresh 1)

/-- `value.size()` is cut down to the type of the length. -/
def writeStringF16 (value : List UInt8) :=
  writeString (writeFuint16 platform endian value.length.toUInt16) value
def writeStringF32 (value : List UInt8) :=
  writeString (writeFuint32 platform endian value.length.toUInt32) value
def writeStringF64 (value : List UInt8) :=
  writeString (writeFuint64 platform endian value.length.toUInt64) value
def writeStringVint (value : List UInt8) :=
  writeString (writeUint64 value.length.toUInt64) value

def readStringF16 (array : ByteArray) : Except Fault (List UInt8) × ByteArray :=
  andThen (readFuint16 platform endian array) fun len array => array.read len.toNat
def readStringF32 (array : ByteArray) : Except Fault (List UInt8) × ByteArray :=
  andThen (readFuint32 platform endian array) fun len array => array.read len.toNat
def readStringF64 (array : ByteArray) : Except Fault (List UInt8) × ByteArray :=
  andThen (readFuint64 platform endian array) fun len array => array.read len.toNat
def readStringVint (array : ByteArray) : Except Fault (List UInt8) × ByteArray :=
  andThen (readUint64 platform array) fun len array => array.read len.toNat

end ByteArray

end Wyze
