/-
**Scattering: `getWriteBuffers` and `SockStream::read`.**

A `recv` into the buffers of `getWriteBuffers` fills them in order (`scatter`), without the cursor
moving; `setPosition` then rebuilds the cursor from the root.

* `scatter_writeLoop`: filling the buffers changes the nodes as the loop of `write` does;
* `receive_spec`: the array that is left is that of `write`, but for storage behind the size.
-/
import Mathlib.Data.List.Nodup
import Wyze.ByteArray.Refine

namespace Wyze.ByteArray

open Blocks

variable {array : ByteArray} {len : Nat}

/-- Fill the buffers in order with the bytes, as far as these go. -/
def scatter : List Node → List Iovec → List UInt8 → List Node
  | nodes, [], _ => nodes
  | nodes, buffer :: buffers, data =>
    scatter (nodes.modify buffer.node (·.store buffer.off (data.take buffer.len))) buffers
      (data.drop buffer.len)

def fill (array : ByteArray) (buffers : List Iovec) (data : List UInt8) : ByteArray :=
  { array with nodes := scatter array.nodes buffers data }

/-- `getWriteBuffers(buffers, len)`, the buffers filled with `data`, and
`setPosition(getPosition() + |data|)`. -/
def receive (array : ByteArray) (len : Nat) (data : List UInt8) (fresh : Nat → UInt8) :
    Except Fault Unit × ByteArray :=
  match array.getWriteBuffers len fresh with
  | (.error fault, array) => (.error fault, array)
  | (.ok (_, buffers), array) =>
    (array.fill buffers data).setPosition (array.getPosition + data.length)

/-- `SockStream::read(ba, length)` where `recv` fills the buffers with `data` and returns its length. -/
def sockRead (array : ByteArray) (length : Nat) (data : List UInt8) (fresh : Nat → UInt8) :
    Except Fault Unit × ByteArray :=
  match array.getWriteBuffers length fresh with
  | (.error fault, array) => (.error fault, array)
  | (.ok (_, buffers), array) =>
    let array := array.fill buffers data
    if data.length > 0 then array.setPosition (array.getPosition + data.length) else (.ok (), array)

/-- What is done with an array: a call, or a read from a socket into it. -/
inductive Use where
  | call (label : Call)
  | sockRead (length : Nat) (data : List UInt8) (fresh : Nat → UInt8)

/-- Do it; `recv` returns no more than the buffers hold. -/
def use (array : ByteArray) : Use → Option (ByteArray × View)
  | .call label => array.call label
  | .sockRead length data fresh =>
    if data.length ≤ length then
      let (reply, array) := array.sockRead length data fresh
      some (array, array.view (reply.map fun _ => .done))
    else none

/-- The bytes up to the size. -/
def contents (array : ByteArray) : List UInt8 := array.flat.slice 0 array.size

/-- The bytes a buffer covers: their node and their place in it. -/
def Iovec.bytes (buffer : Iovec) : List (Nat × Nat) :=
  (List.range buffer.len).map fun byte => (buffer.node, buffer.off + byte)

/-! ### Filling -/

@[simp]
theorem store_nil (node : Node) (npos : Nat) : node.store npos [] = node := by
  rw [Node.store, overwrite_nil]

theorem scatter_cons (front rest : List Node) (node : Node) (npos count : Nat)
    (buffers : List Iovec) (data : List UInt8) :
    scatter (front ++ node :: rest) (⟨front.length, npos, count⟩ :: buffers) data =
      scatter (front ++ node.store npos (data.take count) :: rest) buffers (data.drop count) := by
  have behind : (front ++ node :: rest).drop (front.length + 1) = rest := by
    rw [List.drop_length_add_append]
    rfl
  have inside : front.length < (front ++ node :: rest).length := by simp
  rw [scatter, List.modify_eq_take_cons_drop inside, List.take_left, behind,
    List.getElem_append_right le_rfl]
  simp only [Nat.sub_self, List.getElem_cons_zero]

/-- Without bytes nothing is filled. -/
@[simp]
theorem scatter_nil : ∀ (nodes : List Node) (buffers : List Iovec), scatter nodes buffers [] = nodes
  | _, [] => rfl
  | nodes, buffer :: buffers => by
    rw [scatter, List.take_nil, List.drop_nil, scatter_nil _ buffers]
    simp only [store_nil]
    exact List.modify_id _ _

theorem writeLoop_nil (chain : List Node) (npos : Nat) : writeLoop chain npos [] = some (chain, 0) := by
  rw [writeLoop]

/-- **Filling the buffers is the loop of `write`** on the chain behind the cursor. -/
theorem scatter_writeLoop : ∀ (chain front : List Node) (npos len : Nat) {buffers : List Iovec}
    (data : List UInt8), buffersLoop chain front.length npos len = some buffers →
    data.length ≤ len →
    ∃ written moved, writeLoop chain npos data = some (written, moved) ∧
      scatter (front ++ chain) buffers data = front ++ written
  | chain, front, npos, _, buffers, [], _, _ =>
    ⟨chain, 0, writeLoop_nil chain npos, scatter_nil (front ++ chain) buffers⟩
  | _, _, _, 0, _, _ :: _, _, fits => absurd fits (Nat.not_succ_le_zero _)
  | [], _, _, _ + 1, _, _ :: _, run, _ => by cases run
  | node :: rest, front, npos, len + 1, buffers, byte :: bytes, run, fits => by
    rw [buffersLoop] at run
    rw [writeLoop]
    generalize byte :: bytes = data at fits ⊢
    dsimp only at run ⊢
    by_cases last : data.length ≤ node.size - npos
    · -- the bytes end in this node, whether or not the buffers do
      refine ⟨_, _, if_pos last, ?_⟩
      split at run
      · cases run
        rw [scatter_cons, List.take_of_length_le fits]
        rfl
      · obtain ⟨later, _, rfl⟩ := Option.map_eq_some_iff.mp run
        rw [scatter_cons, List.take_of_length_le last, List.drop_eq_nil_of_le last, scatter_nil]
    · rw [if_neg (by omega)] at run
      obtain ⟨later, run', rfl⟩ := Option.map_eq_some_iff.mp run
      have longer : front.length + 1 =
          (front ++ [node.store npos (data.take (node.size - npos))]).length := by
        rw [List.length_append, List.length_singleton]
      rw [longer] at run'
      obtain ⟨written, moved, wrote, filled⟩ := scatter_writeLoop rest _ 0 _
        (data.drop (node.size - npos)) run' (by rw [List.length_drop]; omega)
      refine ⟨_, _, by rw [if_neg last, wrote]; rfl, ?_⟩
      rw [scatter_cons]
      rw [List.append_assoc, List.singleton_append] at filled
      rw [filled, List.append_assoc, List.singleton_append]

/-! ### The array that is left -/

theorem fill_wellFormed (well : array.WellFormed) {buffers : List Iovec} {data : List UInt8}
    (uniform : Uniform array.baseSize ((scatter array.nodes buffers data).map Node.ptr))
    (same : (scatter array.nodes buffers data).length = array.nodes.length) :
    (array.fill buffers data).WellFormed where
  base_pos := well.base_pos
  uniform := uniform
  root := by
    have := List.length_pos_iff.mpr well.root
    exact List.length_pos_iff.mp (by rw [fill, same]; exact this)
  capacity_eq := by
    simp only [fill, same]
    exact well.capacity_eq
  position_le := well.position_le
  size_le := well.size_le
  cur_eq := well.cur_eq.trans (nodeAt_congr same.symm _)

/-- Storage is only added. -/
theorem reserve_eq (flat : Flat) (size : Nat) (fresh : Nat → UInt8) :
    ∃ more, flat.reserve size fresh = { flat with store := flat.store ++ more } := by
  rw [Flat.reserve]
  dsimp only
  split
  · exact ⟨[], by rw [List.append_nil]⟩
  · exact ⟨_, rfl⟩

/-- **The scattered bytes** are copied over the storage at the position, and the array is well formed
again. -/
theorem receive_spec (well : array.WellFormed) (some_bytes : 1 ≤ len) {data : List UInt8}
    (fits : data.length ≤ len) (fresh : Nat → UInt8) :
    ∃ buffers grown, array.getWriteBuffers len fresh = (.ok (len, buffers), grown) ∧
      grown.WellFormed ∧ grown.position = array.position ∧
      buffersLoop (grown.nodes.drop (grown.position / grown.baseSize))
        (grown.position / grown.baseSize) (grown.position % grown.baseSize) len = some buffers ∧
      buffers.flatMap (Iovec.offsets grown.baseSize) =
        (List.range len).map (array.position + ·) ∧
      ∃ next, array.receive len data fresh = (.ok (), next) ∧ next.WellFormed ∧
        next.position = array.position + data.length ∧
        next.size = max array.size (array.position + data.length) ∧
        storage next.nodes =
          overwrite (array.flat.reserve len fresh).store array.position data := by
  obtain ⟨buffers, grown, returned, kept, same, samePosition, room, run, covered⟩ :=
    getWriteBuffers_run well some_bytes fresh
  refine ⟨buffers, grown, returned, kept, samePosition, run, covered, ?_⟩
  obtain ⟨more, reserved⟩ := reserve_eq array.flat len fresh
  have sameSize : grown.size = array.size := by
    have sizes := congrArg Flat.size (same.trans reserved)
    exact sizes
  rw [← samePosition] at room ⊢
  have within := (chain_at_cursor kept some_bytes room).2.2.2.2
  obtain ⟨written, wrote, stored, uniform, sameLength⟩ :=
    writeLoop_at_cursor kept some_bytes room fits
  have frontLength : (grown.nodes.take (grown.position / grown.baseSize)).length =
      grown.position / grown.baseSize := List.length_take_of_le within
  obtain ⟨chain, moved, wrote', filled⟩ := scatter_writeLoop
    (grown.nodes.drop (grown.position / grown.baseSize))
    (grown.nodes.take (grown.position / grown.baseSize)) _ len data
    (by rw [frontLength]; exact run) fits
  rw [wrote, Option.some.injEq, Prod.mk.injEq] at wrote'
  rw [List.take_append_drop, ← wrote'.1] at filled
  have well' : (grown.fill buffers data).WellFormed :=
    fill_wellFormed kept (by rw [filled]; exact uniform) (by rw [filled]; exact sameLength)
  have sought := setPosition_spec well' (grown.position + data.length)
  rw [if_neg (by simp only [fill]; omega)] at sought
  refine ⟨_, by rw [receive, returned]; exact sought, ?_, rfl, ?_, ?_⟩
  · exact moveTo_wellFormed well' (le_max_right _ _)
      (max_le well'.size_le (by simp only [fill]; omega))
  · simp only [moveTo, fill, sameSize]
  · simp only [moveTo, fill, filled, stored, ← same]
    rfl

/-- `SockStream::read` moves the cursor only when it got bytes; there is nothing to move without. -/
theorem sockRead_eq_receive (well : array.WellFormed) (some_bytes : 1 ≤ len) {data : List UInt8}
    (fits : data.length ≤ len) (fresh : Nat → UInt8) :
    array.sockRead len data fresh = array.receive len data fresh := by
  obtain ⟨buffers, grown, returned, kept, _⟩ := receive_spec well some_bytes fits fresh
  rw [sockRead, receive, returned]
  dsimp only
  split
  · rfl
  · rename_i nothing
    have empty : data = [] := List.length_eq_zero_iff.mp (by omega)
    have sought := setPosition_spec kept grown.position
    rw [if_neg (not_lt.mpr kept.position_le_capacity), moveTo, Nat.max_eq_left kept.position_le,
      ← kept.cur_eq] at sought
    rw [empty, fill, scatter_nil, List.length_nil, getPosition, Nat.add_zero, sought]

theorem use_wellFormed (label : Use) (well : array.WellFormed) {next : ByteArray} {seen : View}
    (used : array.use label = some (next, seen)) : next.WellFormed := by
  cases label with
  | call label => exact call_wellFormed label well used
  | sockRead length data fresh =>
      rw [use] at used
      split at used
      · rename_i fits
        rw [Option.some.injEq, Prod.mk.injEq] at used
        rw [← used.1]
        by_cases nothing : length = 0
        · have empty : data = [] := List.length_eq_zero_iff.mp (by omega)
          rw [nothing, empty]
          exact well
        · have some_bytes : 1 ≤ length := Nat.one_le_iff_ne_zero.mpr nothing
          obtain ⟨_, _, _, _, _, _, _, filled, received, kept, _⟩ :=
            receive_spec well some_bytes fits fresh
          rw [sockRead_eq_receive well some_bytes fits, received]
          exact kept
      · cases used

/-- Every array in use is well formed. -/
theorem uses_wellFormed {baseSize : Nat} (base_pos : 1 ≤ baseSize) (fresh : Nat → UInt8)
    {uses : List Use} {views : List View}
    (executed : Labelled.trace use (new baseSize fresh) uses = some (array, views)) :
    array.WellFormed :=
  Labelled.trace_invariant'
    (fun state label _ (before : state.WellFormed) used => use_wellFormed label before used)
    (new_wellFormed base_pos fresh) executed

/-! ### Where the buffers are -/

theorem offsets_eq_map_bytes (baseSize : Nat) (buffer : Iovec) :
    Iovec.offsets baseSize buffer =
      (Iovec.bytes buffer).map fun (node, byte) => baseSize * node + byte := by
  rw [Iovec.offsets, Iovec.bytes, List.map_map]
  exact List.map_congr_left fun byte _ => Nat.add_assoc _ _ _

/-- Every buffer ends inside its node. -/
theorem buffersLoop_inside : ∀ (chain front : List Node) (npos len : Nat) {buffers : List Iovec},
    buffersLoop chain front.length npos len = some buffers →
    (∀ node ∈ chain.head?, npos ≤ node.size) → ∀ buffer ∈ buffers,
    ∃ node, (front ++ chain)[buffer.node]? = some node ∧ buffer.off + buffer.len ≤ node.size
  | chain, _, _, 0, buffers, run, _, buffer, member => by
    rw [buffersLoop] at run
    cases run
    cases member
  | [], _, _, _ + 1, _, run, _, _, _ => by cases run
  | node :: rest, front, npos, len + 1, buffers, run, start, buffer, member => by
    have here : (front ++ node :: rest)[front.length]? = some node := by
      rw [List.getElem?_append_right le_rfl, Nat.sub_self, List.getElem?_cons_zero]
    have first : npos ≤ node.size := start node rfl
    rw [buffersLoop] at run
    split at run
    · cases run
      rw [List.mem_singleton.mp member]
      exact ⟨node, here, by dsimp only; omega⟩
    · obtain ⟨later, run', rfl⟩ := Option.map_eq_some_iff.mp run
      have longer : front.length + 1 = (front ++ [node]).length := by
        rw [List.length_append, List.length_singleton]
      rw [longer] at run'
      rcases List.mem_cons.mp member with rfl | member
      · exact ⟨node, here, by dsimp only; omega⟩
      · have inside := buffersLoop_inside rest (front ++ [node]) 0 _ run'
          (fun _ _ => Nat.zero_le _) buffer member
        rwa [List.append_assoc, List.singleton_append] at inside

/-- **The buffers cover exactly `len` bytes, all distinct and inside the nodes.** -/
structure Covers (array : ByteArray) (len : Nat) (buffers : List Iovec) : Prop where
  count : (buffers.flatMap Iovec.bytes).length = len
  distinct : (buffers.flatMap Iovec.bytes).Nodup
  inside : ∀ place ∈ buffers.flatMap Iovec.bytes,
    ∃ node, array.nodes[place.1]? = some node ∧ place.2 < node.size

theorem covers_of_run (well : array.WellFormed) {position : Nat} {buffers : List Iovec}
    (run : buffersLoop (array.nodes.drop (array.position / array.baseSize))
      (array.position / array.baseSize) (array.position % array.baseSize) len = some buffers)
    (within : array.position / array.baseSize ≤ array.nodes.length)
    (covered : buffers.flatMap (Iovec.offsets array.baseSize) =
      (List.range len).map (position + ·)) :
    array.Covers len buffers := by
  have asOffsets : (buffers.flatMap Iovec.bytes).map
      (fun (node, byte) => array.baseSize * node + byte) = (List.range len).map (position + ·) := by
    rw [List.map_flatMap, ← covered]
    exact congrArg (buffers.flatMap ·) (funext fun buffer => (offsets_eq_map_bytes _ buffer).symm)
  refine ⟨?_, ?_, ?_⟩
  · have lengths := congrArg List.length asOffsets
    rwa [List.length_map, List.length_map, List.length_range] at lengths
  · refine List.Nodup.of_map (fun (node, byte) => array.baseSize * node + byte) ?_
    rw [asOffsets]
    exact (List.nodup_range).map (add_right_injective position)
  · intro place member
    obtain ⟨buffer, isBuffer, isByte⟩ := List.mem_flatMap.mp member
    obtain ⟨byte, below, rfl⟩ := List.mem_map.mp isByte
    have frontLength : (array.nodes.take (array.position / array.baseSize)).length =
        array.position / array.baseSize := List.length_take_of_le within
    have start : ∀ node ∈ (array.nodes.drop (array.position / array.baseSize)).head?,
        array.position % array.baseSize ≤ node.size := by
      intro node isHead
      have size : node.size = array.baseSize := well.uniform _ (List.mem_map_of_mem
        (List.mem_of_mem_drop (List.mem_of_mem_head? isHead)))
      rw [size]
      exact (Nat.mod_lt _ well.base_pos).le
    obtain ⟨node, here, ends⟩ := buffersLoop_inside _ _ _ len (by rw [frontLength]; exact run)
      start buffer isBuffer
    rw [List.take_append_drop] at here
    have := List.mem_range.mp below
    exact ⟨node, here, by dsimp only; omega⟩

/-! ### Against `write` -/

/-- What a copy over grown storage leaves up to the size is the copy over the old contents. -/
theorem contents_overwrite (well : array.WellFormed) (data : List UInt8) (size : Nat)
    (fresh : Nat → UInt8) {next : ByteArray}
    (stored : storage next.nodes =
      overwrite (array.flat.reserve size fresh).store array.position data)
    (grown : next.size = max array.size (array.position + data.length)) :
    next.contents = overwrite array.contents array.position data := by
  obtain ⟨more, reserved⟩ := reserve_eq array.flat size fresh
  have within : array.size ≤ (storage array.nodes).length := by
    rw [well.length_storage]
    exact well.size_le
  rw [reserved] at stored
  rw [contents, contents, Flat.slice, Flat.slice, List.drop_zero, List.drop_zero, grown]
  simp only [flat] at stored ⊢
  rw [stored, take_max_overwrite well.position_le within]

theorem length_slice (well : array.WellFormed) {start len : Nat} (present : start + len ≤ array.size) :
    (array.flat.slice start len).length = len := by
  have bound := well.size_le
  unfold Flat.slice
  rw [List.length_take, List.length_drop]
  refine Nat.min_eq_left ?_
  show len ≤ (storage array.nodes).length - start
  rw [well.length_storage]
  omega

theorem length_contents (well : array.WellFormed) : array.contents.length = array.size :=
  length_slice well (Nat.zero_add array.size).le

/-- **`write`** copies over the old contents. -/
theorem write_contents (well : array.WellFormed) (data : List UInt8) (fresh : Nat → UInt8) :
    ∃ next, array.write data fresh = (.ok (), next) ∧
      next.position = array.position + data.length ∧
      next.size = max array.size (array.position + data.length) ∧
      next.contents = overwrite array.contents array.position data := by
  obtain ⟨next, returned, kept, same⟩ := write_spec well data fresh
  refine ⟨next, returned, ?_⟩
  by_cases empty : data = []
  · rw [write, if_pos (by rw [empty]; rfl), Prod.mk.injEq] at returned
    rw [← returned.2, empty, overwrite_nil, List.length_nil, Nat.add_zero,
      Nat.max_eq_left well.position_le]
    exact ⟨rfl, rfl, rfl⟩
  · rw [Flat.write, if_neg empty] at same
    have grown : next.size = max array.size (array.position + data.length) := by
      have sizes := congrArg Flat.size same
      exact sizes
    have stored : storage next.nodes = overwrite _ array.position data := congrArg Flat.store same
    exact ⟨congrArg Flat.position same, grown, contents_overwrite well data _ fresh stored grown⟩

/-- **Scattering is writing.** In every state of a run of calls and socket reads, for every length from
one on and all bytes that it has room for, the buffers of `getWriteBuffers` cover that many bytes,
distinct and inside the nodes, at the offsets from the position on; filling them with the bytes and
setting the position behind these returns, and leaves the position, the size and the contents that
`write` of the bytes leaves. That is also what `SockStream::read` leaves. -/
theorem scatter_is_write (baseSize : Nat) (base_pos : 1 ≤ baseSize) (fresh : Nat → UInt8)
    (uses : List Use) {views : List View}
    (executed : Labelled.trace use (new baseSize fresh) uses = some (array, views))
    (len : Nat) (some_bytes : 1 ≤ len) (data : List UInt8) (fits : data.length ≤ len)
    (grownFresh writeFresh : Nat → UInt8) :
    ∃ buffers grown filled written,
      array.getWriteBuffers len grownFresh = (.ok (len, buffers), grown) ∧
      grown.Covers len buffers ∧
      buffers.flatMap (Iovec.offsets grown.baseSize) =
        (List.range len).map (array.position + ·) ∧
      (grown.fill buffers data).setPosition (grown.getPosition + data.length) = (.ok (), filled) ∧
      array.sockRead len data grownFresh = (.ok (), filled) ∧
      array.write data writeFresh = (.ok (), written) ∧
      filled.position = written.position ∧ filled.size = written.size ∧
      filled.contents = written.contents := by
  have well := uses_wellFormed base_pos fresh executed
  obtain ⟨buffers, grown, returned, kept, samePosition, run, covered, filled, received, _,
    position, size, stored⟩ := receive_spec well some_bytes fits grownFresh
  obtain ⟨written, wrote, position', size', contents'⟩ := write_contents well data writeFresh
  have within : grown.position / grown.baseSize ≤ grown.nodes.length := by
    refine Nat.div_le_of_le_mul ?_
    rw [← kept.capacity_eq]
    exact kept.position_le_capacity
  refine ⟨buffers, grown, filled, written, returned, covers_of_run kept run within covered, covered,
    ?_, ?_, wrote, position.trans position'.symm, size.trans size'.symm, ?_⟩
  · rw [receive, returned] at received
    exact received
  · rw [sockRead_eq_receive well some_bytes fits, received]
  · rw [contents_overwrite well data len grownFresh stored size, contents']

/-- Four bytes a node, at full capacity: the buffers for six bytes lie in two new nodes, five bytes
come. -/
theorem scatter_is_write_full :
    ∃ array views buffers grown filled written, Labelled.trace use (new 4 fun _ => 0)
        [.call (.write [1, 2] fun _ => 0), .sockRead 2 [3, 4] fun _ => 0] = some (array, views) ∧
      array.cur = none ∧
      array.getWriteBuffers 6 (fun _ => 9) = (.ok (6, buffers), grown) ∧
      grown.Covers 6 buffers ∧
      array.sockRead 6 [5, 6, 7, 8, 9] (fun _ => 9) = (.ok (), filled) ∧
      array.write [5, 6, 7, 8, 9] (fun _ => 0) = (.ok (), written) ∧
      filled.contents = written.contents := by
  have executed : Labelled.trace use (new 4 fun _ => 0)
      [.call (.write [1, 2] fun _ => 0), .sockRead 2 [3, 4] fun _ => 0] = some (_, _) := rfl
  obtain ⟨buffers, grown, filled, written, returned, covers, _, _, read, wrote, _, _, same⟩ :=
    scatter_is_write 4 (by decide) (fun _ => 0) _ executed 6 (by decide) [5, 6, 7, 8, 9] (by decide)
      (fun _ => 9) (fun _ => 0)
  exact ⟨_, _, buffers, grown, filled, written, executed, rfl, returned, covers, read, wrote, same⟩

end Wyze.ByteArray
