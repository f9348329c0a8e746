/-
**The linked-node byte array of `bytearray.cpp`.**

A `ByteArray` is a chain of nodes of `m_basesize` bytes, a pointer `m_cur` into it and four counters.
The chain of `next` pointers is the list `nodes`; `m_cur` is the index of a node, `none` for the null
pointer. Every function returns its result together with the array it leaves behind, so a state that
is left when an exception is thrown can be read off: `Fault.outOfRange` is the `std::out_of_range` of
the source, `Fault.nullDeref` stands where the source dereferences a null node.

Storage comes from `new char[s]` and is not initialised: the functions that allocate take `fresh`,
the bytes the new nodes happen to hold.
-/
import Wyze.Lib.Blocks

namespace Wyze

open Blocks

/-- The ways a call on a `ByteArray` does not return. -/
inductive Fault where
  | outOfRange
  | nullDeref
  deriving DecidableEq, Repr

/-- `ByteArray::Node`; its `next` is the node behind it in the list it stands in. -/
structure Node where
  ptr : List UInt8
  deriving DecidableEq, Repr

/-- `Node::size`, the number of bytes `ptr` was allocated with. -/
def Node.size (node : Node) : Nat := node.ptr.length

/-- `memcpy(ptr + npos, data, …)`. -/
def Node.store (node : Node) (npos : Nat) (data : List UInt8) : Node :=
  ⟨overwrite node.ptr npos data⟩

/-- `memcpy(…, ptr + npos, len)`. -/
def Node.load (node : Node) (npos len : Nat) : List UInt8 := (node.ptr.drop npos).take len

/-- An `iovec`: `len` bytes of the node with index `node`, from its byte `off` on. -/
structure Iovec where
  node : Nat
  off : Nat
  len : Nat
  deriving DecidableEq, Repr

structure ByteArray where
  baseSize : Nat
  position : Nat
  capacity : Nat
  size : Nat
  /-- The nodes from `m_root` on. -/
  nodes : List Node
  /-- `m_cur`. -/
  cur : Option Nat
  deriving DecidableEq, Repr

namespace ByteArray

/-- Count nodes of `new Node(m_basesize)`, holding the bytes `fresh`. -/
def newNodes (baseSize count : Nat) (fresh : Nat → UInt8) : List Node :=
  (List.range count).map fun node =>
    ⟨(List.range baseSize).map fun byte => fresh (baseSize * node + byte)⟩

/-- `ByteArray::ByteArray`. -/
def new (baseSize : Nat) (fresh : Nat → UInt8) : ByteArray where
  baseSize := baseSize
  position := 0
  capacity := baseSize
  size := 0
  nodes := newNodes baseSize 1 fresh
  cur := some 0

def getPosition (array : ByteArray) : Nat := array.position

def getSize (array : ByteArray) : Nat := array.size

def getReadSize (array : ByteArray) : Nat := array.size - array.position

def getCapacity (array : ByteArray) : Nat := array.capacity - array.position

/-- The pointer to the node with this index: null behind the last node. -/
def nodeAt (array : ByteArray) (index : Nat) : Option Nat :=
  if index < array.nodes.length then some index else none

/-- The number of nodes that hold `size` bytes: the `count` of `addCapacity`. -/
def nodeCount (baseSize size : Nat) : Nat :=
  size / baseSize + if size % baseSize ≠ 0 then 1 else 0

/-- The loop of `addCapacity`: `count` new nodes behind the last one. -/
def appendNodes (array : ByteArray) (count : Nat) (fresh : Nat → UInt8) : ByteArray :=
  { array with
    nodes := array.nodes ++ newNodes array.baseSize count fresh
    capacity := array.capacity + array.baseSize * count }

def addCapacity (array : ByteArray) (size : Nat) (fresh : Nat → UInt8) : ByteArray :=
  if size = 0 then array
  else
    let oldCap := array.getCapacity
    if oldCap > size then array
    else
      let grown := array.appendNodes (nodeCount array.baseSize (size - oldCap)) fresh
      -- `first` is the node behind the old last one, null when no node was added
      if oldCap = 0 then { grown with cur := grown.nodeAt array.nodes.length } else grown

/-- The loop of `write` on the chain that starts at `m_cur`: the chain it leaves and the number of
`next` pointers it follows, or `none` where it dereferences a null pointer. -/
def writeLoop : List Node → Nat → List UInt8 → Option (List Node × Nat)
  | chain, _, [] => some (chain, 0)
  | [], _, _ :: _ => none
  | node :: rest, npos, byte :: bytes =>
    let buf := byte :: bytes
    let ncap := node.size - npos
    if buf.length ≤ ncap then
      some (node.store npos buf :: rest, if node.size = npos + buf.length then 1 else 0)
    else
      (writeLoop rest 0 (buf.drop ncap)).map fun (chain, moved) =>
        (node.store npos (buf.take ncap) :: chain, moved + 1)

/-- `write(buf, size)`. The source moves `m_position` and `m_cur` inside the loop; here they move by
the same amounts behind it. -/
def write (array : ByteArray) (buf : List UInt8) (fresh : Nat → UInt8) :
    Except Fault Unit × ByteArray :=
  if buf.length = 0 then (.ok (), array)
  else
    let array := array.addCapacity buf.length fresh
    match array.cur with
    | none => (.error .nullDeref, array)
    | some cur =>
      match writeLoop (array.nodes.drop cur) (array.position % array.baseSize) buf with
      | none => (.error .nullDeref, array)
      | some (chain, moved) =>
        let position := array.position + buf.length
        (.ok (), { array with
          nodes := array.nodes.take cur ++ chain
          cur := array.nodeAt (cur + moved)
          position := position
          size := if position > array.size then position else array.size })

/-- The loop of `read` on the chain that starts at `m_cur`: the bytes it copies and the number of
`next` pointers it follows. -/
def readLoop : List Node → Nat → Nat → Option (List UInt8 × Nat)
  | _, _, 0 => some ([], 0)
  | [], _, _ + 1 => none
  | node :: rest, npos, size + 1 =>
    let ncap := node.size - npos
    if size + 1 ≤ ncap then
      some (node.load npos (size + 1), if node.size = npos + (size + 1) then 1 else 0)
    else
      (readLoop rest 0 (size + 1 - ncap)).map fun (bytes, moved) =>
        (node.load npos ncap ++ bytes, moved + 1)

/-- `read(buf, size)`. The source reads `m_cur->size` before it looks at `size`, so a read of no bytes
at full capacity dereferences the null cursor. -/
def read (array : ByteArray) (size : Nat) : Except Fault (List UInt8) × ByteArray :=
  if size > array.getReadSize then (.error .outOfRange, array)
  else
    match array.cur with
    | none => (.error .nullDeref, array)
    | some cur =>
      match readLoop (array.nodes.drop cur) (array.position % array.baseSize) size with
      | none => (.error .nullDeref, array)
      | some (bytes, moved) =>
        (.ok bytes, { array with
          cur := array.nodeAt (cur + moved)
          position := array.position + size })

/-- The loop of `setPosition` from the node with this index on: the index it stops at. -/
def seekLoop : List Node → Nat → Nat → Option Nat
  | [], _, _ => none
  | node :: rest, value, index =>
    if value > node.size then seekLoop rest (value - node.size) (index + 1)
    else if value = node.size then some (index + 1)
    else some index

def setPosition (array : ByteArray) (value : Nat) : Except Fault Unit × ByteArray :=
  if value > array.capacity then (.error .outOfRange, array)
  else
    let array := { array with
      position := value
      size := if value > array.size then value else array.size }
    match seekLoop array.nodes value 0 with
    | none => (.error .nullDeref, array)
    | some index => (.ok (), { array with cur := array.nodeAt index })

def clear (array : ByteArray) : ByteArray :=
  { array with
    position := 0
    size := 0
    capacity := array.baseSize
    nodes := array.nodes.take 1
    cur := some 0 }

/-- The loop of `getWriteBuffers` on the chain that starts at the node with this index. -/
def buffersLoop : List Node → Nat → Nat → Nat → Option (List Iovec)
  | _, _, _, 0 => some []
  | [], _, _, _ + 1 => none
  | node :: rest, index, npos, len + 1 =>
    let ncap := node.size - npos
    if len + 1 ≤ ncap then some [⟨index, npos, len + 1⟩]
    else (buffersLoop rest (index + 1) 0 (len + 1 - ncap)).map (⟨index, npos, ncap⟩ :: ·)

/-- `getWriteBuffers(buffers, len)`: the number of bytes and the buffers appended. -/
def getWriteBuffers (array : ByteArray) (len : Nat) (fresh : Nat → UInt8) :
    Except Fault (Nat × List Iovec) × ByteArray :=
  if len = 0 then (.ok (0, []), array)
  else
    let array := array.addCapacity len fresh
    match array.cur with
    | none => (.error .nullDeref, array)
    | some cur =>
      match buffersLoop (array.nodes.drop cur) cur (array.position % array.baseSize) len with
      | none => (.error .nullDeref, array)
      | some buffers => (.ok (len, buffers), array)

/-! ### Calls and what a caller sees of them -/

/-- A call, with the uninitialised bytes it may allocate. -/
inductive Call where
  | write (buf : List UInt8) (fresh : Nat → UInt8)
  | read (size : Nat)
  | setPosition (value : Nat)
  | clear
  | getWriteBuffers (len : Nat) (fresh : Nat → UInt8)

/-- What a call gives back. The buffers of `getWriteBuffers` are given as the offsets in the array of
the bytes they cover. -/
inductive Reply where
  | done
  | bytes (data : List UInt8)
  | buffers (len : Nat) (offsets : List Nat)
  deriving DecidableEq, Repr

/-- The reply or the exception, and what `getPosition`, `getSize` and `getReadSize` say behind it. -/
structure View where
  reply : Except Fault Reply
  position : Nat
  size : Nat
  readSize : Nat

/-- The offsets of the bytes an `iovec` covers, counted from the first byte of `m_root`. -/
def Iovec.offsets (baseSize : Nat) (buffer : Iovec) : List Nat :=
  (List.range buffer.len).map (baseSize * buffer.node + buffer.off + ·)

def view (reply : Except Fault Reply) (array : ByteArray) : View :=
  ⟨reply, array.getPosition, array.getSize, array.getReadSize⟩

/-- Make one call. -/
def call (array : ByteArray) : Call → Option (ByteArray × View)
  | .write buf fresh =>
    let (reply, array) := array.write buf fresh
    some (array, array.view (reply.map fun _ => .done))
  | .read size =>
    let (reply, array) := array.read size
    some (array, array.view (reply.map .bytes))
  | .setPosition value =>
    let (reply, array) := array.setPosition value
    some (array, array.view (reply.map fun _ => .done))
  | .clear => some (array.clear, array.clear.view (.ok .done))
  | .getWriteBuffers len fresh =>
    let (reply, array) := array.getWriteBuffers len fresh
    some (array, array.view (reply.map fun (len, buffers) =>
      .buffers len (buffers.flatMap (Iovec.offsets array.baseSize))))

end ByteArray

end Wyze
