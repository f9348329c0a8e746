/-
**What a `ByteArray` is for: one flat array of bytes with a cursor and a size.**

`Flat` has no nodes: `store` is the storage, its length the capacity. `reserve` appends storage in
multiples of the base size, a write copies over the storage at the cursor, a read takes the bytes
from the cursor on, and only a read past the size or a position past the capacity is refused.

`ByteArray.WellFormed` is the invariant that makes a linked array one of these, and `ByteArray.flat`
the flat array it stands for.
-/
import Wyze.ByteArray.Basic

namespace Wyze

open Blocks

structure Flat where
  baseSize : Nat
  store : List UInt8
  position : Nat
  size : Nat
  deriving DecidableEq, Repr

namespace Flat

def new (baseSize : Nat) (fresh : Nat → UInt8) : Flat where
  baseSize := baseSize
  store := (List.range baseSize).map fresh
  position := 0
  size := 0

/-- Room for `size` bytes behind the cursor: nothing is added while more than that is left. -/
def reserve (flat : Flat) (size : Nat) (fresh : Nat → UInt8) : Flat :=
  let left := flat.store.length - flat.position
  if left > size then flat
  else
    let added := flat.baseSize * ByteArray.nodeCount flat.baseSize (size - left)
    { flat with store := flat.store ++ (List.range added).map fresh }

def write (flat : Flat) (buf : List UInt8) (fresh : Nat → UInt8) : Flat :=
  if buf = [] then flat
  else
    let roomy := flat.reserve buf.length fresh
    { roomy with
      store := overwrite roomy.store flat.position buf
      position := flat.position + buf.length
      size := max flat.size (flat.position + buf.length) }

/-- The bytes from an offset on. -/
def slice (flat : Flat) (start len : Nat) : List UInt8 := (flat.store.drop start).take len

def clear (flat : Flat) : Flat :=
  { flat with store := flat.store.take flat.baseSize, position := 0, size := 0 }

def view (reply : Except Fault ByteArray.Reply) (flat : Flat) : ByteArray.View :=
  ⟨reply, flat.position, flat.size, flat.size - flat.position⟩

/-- Make one call. There are no nodes here, so no call can meet a null one. -/
def call (flat : Flat) : ByteArray.Call → Option (Flat × ByteArray.View)
  | .write buf fresh => some (flat.write buf fresh, (flat.write buf fresh).view (.ok .done))
  | .read size =>
    if size > flat.size - flat.position then some (flat, flat.view (.error .outOfRange))
    else
      let next := { flat with position := flat.position + size }
      some (next, next.view (.ok (.bytes (flat.slice flat.position size))))
  | .setPosition value =>
    if value > flat.store.length then some (flat, flat.view (.error .outOfRange))
    else
      let next := { flat with position := value, size := max flat.size value }
      some (next, next.view (.ok .done))
  | .clear => some (flat.clear, flat.clear.view (.ok .done))
  | .getWriteBuffers len fresh =>
    let next := if len = 0 then flat else flat.reserve len fresh
    some (next, next.view (.ok (.buffers len ((List.range len).map (flat.position + ·)))))

end Flat

namespace ByteArray

/-- The bytes of a chain of nodes. -/
def storage (nodes : List Node) : List UInt8 := (nodes.map Node.ptr).flatten

/-- The flat array a linked one stands for. -/
def flat (array : ByteArray) : Flat :=
  ⟨array.baseSize, storage array.nodes, array.position, array.size⟩

/-- The node that contains a position, null at full capacity. -/
def cursorAt (array : ByteArray) (position : Nat) : Option Nat :=
  array.nodeAt (position / array.baseSize)

/-- **The representation invariant.** -/
structure WellFormed (array : ByteArray) : Prop where
  base_pos : 1 ≤ array.baseSize
  uniform : Uniform array.baseSize (array.nodes.map Node.ptr)
  root : array.nodes ≠ []
  capacity_eq : array.capacity = array.baseSize * array.nodes.length
  position_le : array.position ≤ array.size
  size_le : array.size ≤ array.capacity
  cur_eq : array.cur = array.cursorAt array.position

namespace WellFormed

variable {array : ByteArray}

theorem length_storage (well : array.WellFormed) :
    (storage array.nodes).length = array.capacity := by
  rw [storage, well.uniform.length_flatten, List.length_map, well.capacity_eq]

theorem position_le_capacity (well : array.WellFormed) : array.position ≤ array.capacity :=
  well.position_le.trans well.size_le

/-- The cursor is null exactly at full capacity. -/
theorem cur_eq_none_iff (well : array.WellFormed) :
    array.cur = none ↔ array.position = array.capacity := by
  have bound := well.position_le_capacity
  have inside : array.position / array.baseSize < array.nodes.length ↔
      array.position < array.capacity := by
    rw [Nat.div_lt_iff_lt_mul well.base_pos, well.capacity_eq, Nat.mul_comm]
  rw [well.cur_eq, cursorAt, nodeAt]
  split
  · rename_i node
    have := inside.mp node
    simp only [reduceCtorEq, false_iff]
    omega
  · rename_i node
    have := fun below => node (inside.mpr below)
    simp only [true_iff]
    omega

/-- Elsewhere it is the node the position lies in. -/
theorem cur_eq_some (well : array.WellFormed) {index : Nat} (cursor : array.cur = some index) :
    index < array.nodes.length ∧ array.baseSize * index ≤ array.position ∧
      array.position < array.baseSize * (index + 1) ∧ index = array.position / array.baseSize := by
  rw [well.cur_eq, cursorAt, nodeAt] at cursor
  split at cursor
  · rename_i inside
    cases cursor
    refine ⟨inside, Nat.mul_div_le _ _, ?_, rfl⟩
    exact Nat.lt_mul_div_succ _ well.base_pos
  · cases cursor

/-- Below the capacity there is a cursor. -/
theorem cur_of_lt (well : array.WellFormed) (below : array.position < array.capacity) :
    array.cur = some (array.position / array.baseSize) := by
  rcases cursor : array.cur with _ | index
  · have := well.cur_eq_none_iff.mp cursor
    omega
  · rw [(well.cur_eq_some cursor).2.2.2]

end WellFormed

end ByteArray

end Wyze
