/-
**The linked array refines the flat one.**

One lemma per function says that on a well-formed array it returns what the flat function returns,
leaves a well-formed array behind and meets no null node; `call_refines` collects them for one call
and `calls_refine_flat` carries them over every sequence of calls.
-/
import Wyze.ByteArray.Loops
import Wyze.Lib.Run

namespace Wyze.ByteArray

open Blocks

variable {array : ByteArray}

/-- The array with another position and size, and the cursor at that position. -/
def moveTo (array : ByteArray) (position size : Nat) : ByteArray :=
  { array with position := position, size := size, cur := array.cursorAt position }

theorem moveTo_wellFormed (well : array.WellFormed) {position size : Nat} (before : position ≤ size)
    (within : size ≤ array.capacity) : (array.moveTo position size).WellFormed :=
  { base_pos := well.base_pos, uniform := well.uniform, root := well.root,
    capacity_eq := well.capacity_eq, position_le := before, size_le := within, cur_eq := rfl }

theorem nodeAt_congr {first second : ByteArray} (same : first.nodes.length = second.nodes.length)
    (index : Nat) : first.nodeAt index = second.nodeAt index := by
  rw [nodeAt, nodeAt, same]

/-! ### Growing -/

/-- The nodes hold what is asked for, and less than a node more. -/
theorem nodeCount_bounds {baseSize : Nat} (base_pos : 1 ≤ baseSize) (size : Nat) :
    size ≤ baseSize * nodeCount baseSize size ∧
      baseSize * nodeCount baseSize size < size + baseSize := by
  have split := Nat.div_add_mod size baseSize
  have small := Nat.mod_lt size base_pos
  rw [nodeCount, Nat.mul_add]
  split
  · omega
  · omega

theorem appendNodes_wellFormed (well : array.WellFormed) (count : Nat) (fresh : Nat → UInt8) :
    ((array.appendNodes count fresh).moveTo array.position array.size).WellFormed where
  base_pos := well.base_pos
  uniform := by
    simp only [moveTo, appendNodes, List.map_append]
    exact well.uniform.append (uniform_newNodes count fresh)
  root := by
    simp only [moveTo, appendNodes, ne_eq, List.append_eq_nil_iff, not_and]
    exact fun empty => absurd empty well.root
  capacity_eq := by
    simp only [moveTo, appendNodes, List.length_append, length_newNodes, Nat.mul_add]
    rw [well.capacity_eq]
  position_le := well.position_le
  size_le := well.size_le.trans (Nat.le_add_right _ _)
  cur_eq := rfl

/-- Whichever branch of `addCapacity` adds nodes, the cursor it leaves is that of the position in the
longer chain: a null cursor is set to the first new node. -/
theorem addCapacity_of_le (well : array.WellFormed) {size : Nat} (some_bytes : 1 ≤ size)
    (short : array.getCapacity ≤ size) (fresh : Nat → UInt8) :
    array.addCapacity size fresh =
      (array.appendNodes (nodeCount array.baseSize (size - array.getCapacity)) fresh).moveTo
        array.position array.size := by
  have bound := well.position_le_capacity
  rw [addCapacity, if_neg (by omega)]
  dsimp only
  rw [if_neg (by omega)]
  generalize nodeCount array.baseSize (size - array.getCapacity) = count
  by_cases full : array.getCapacity = 0
  · have atEnd : array.position / array.baseSize = array.nodes.length := by
      rw [getCapacity] at full
      rw [show array.position = array.capacity by omega, well.capacity_eq,
        Nat.mul_div_cancel_left _ well.base_pos]
    rw [if_pos full, ← atEnd]
    rfl
  · have below : array.position < array.capacity := Nat.sub_ne_zero_iff_lt.mp full
    have cursor := well.cur_of_lt below
    have inside := (well.cur_eq_some cursor).1
    rw [if_neg full]
    simp only [moveTo, appendNodes, cursorAt, nodeAt, List.length_append]
    rw [if_pos (by omega), ← cursor]

@[simp]
theorem addCapacity_position (array : ByteArray) (size : Nat) (fresh : Nat → UInt8) :
    (array.addCapacity size fresh).position = array.position := by
  simp only [addCapacity]
  repeat' split
  all_goals rfl

@[simp]
theorem addCapacity_size (array : ByteArray) (size : Nat) (fresh : Nat → UInt8) :
    (array.addCapacity size fresh).size = array.size := by
  simp only [addCapacity]
  repeat' split
  all_goals rfl

/-- **`addCapacity`** adds what the flat array adds and leaves room for `size` bytes. -/
theorem addCapacity_spec (well : array.WellFormed) {size : Nat} (some_bytes : 1 ≤ size)
    (fresh : Nat → UInt8) :
    (array.addCapacity size fresh).WellFormed ∧
      (array.addCapacity size fresh).flat = array.flat.reserve size fresh ∧
      array.position + size ≤ (array.addCapacity size fresh).capacity := by
  have bound := well.position_le_capacity
  have leftEq : array.flat.store.length - array.flat.position = array.getCapacity := by
    rw [getCapacity, ← well.length_storage]
    rfl
  rw [Flat.reserve, leftEq]
  by_cases roomy : array.getCapacity > size
  · have same : array.addCapacity size fresh = array := by
      rw [addCapacity, if_neg (by omega)]
      exact if_pos roomy
    rw [same]
    refine ⟨well, (if_pos roomy).symm, ?_⟩
    rw [getCapacity] at roomy
    omega
  · rw [addCapacity_of_le well some_bytes (by omega)]
    refine ⟨appendNodes_wellFormed well _ fresh, ?_, ?_⟩
    · simp only [if_neg roomy]
      simp only [flat, moveTo, appendNodes, storage_append, storage_newNodes]
    · obtain ⟨need, _⟩ := nodeCount_bounds well.base_pos (size - array.getCapacity)
      rw [getCapacity] at need roomy
      simp only [moveTo, appendNodes, getCapacity]
      omega

/-! ### One lemma per function -/

/-- What the loops need to know about the chain behind the cursor. -/
theorem chain_at_cursor (well : array.WellFormed) {len : Nat} (some_bytes : 1 ≤ len)
    (fits : array.position + len ≤ array.capacity) :
    array.cur = some (array.position / array.baseSize) ∧
      Uniform array.baseSize ((array.nodes.drop (array.position / array.baseSize)).map Node.ptr) ∧
      array.position % array.baseSize < array.baseSize ∧
      array.position % array.baseSize + len ≤
        (storage (array.nodes.drop (array.position / array.baseSize))).length ∧
      array.position / array.baseSize ≤ array.nodes.length := by
  have cursor := well.cur_of_lt (by omega : array.position < array.capacity)
  have inside := (well.cur_eq_some cursor).1
  refine ⟨cursor, ?_, Nat.mod_lt _ well.base_pos, ?_, inside.le⟩
  · rw [List.map_drop]
    exact well.uniform.drop _
  · rw [storage_drop well.uniform inside.le, List.length_drop, well.length_storage]
    have := Nat.div_add_mod array.position array.baseSize
    omega

/-- Moving `len` bytes on from the cursor's node arrives at the node of the new position. -/
theorem cursor_moved (well : array.WellFormed) (len : Nat) :
    array.position / array.baseSize + (array.position % array.baseSize + len) / array.baseSize =
      (array.position + len) / array.baseSize := by
  conv_rhs => rw [← Nat.div_add_mod array.position array.baseSize, Nat.add_assoc,
    Nat.mul_add_div well.base_pos]

/-- **The loop of `write` from the cursor**: a copy over the whole storage at the position. -/
theorem writeLoop_at_cursor (well : array.WellFormed) {len : Nat} (some_bytes : 1 ≤ len)
    (room : array.position + len ≤ array.capacity) {buf : List UInt8} (fits : buf.length ≤ len) :
    ∃ chain, writeLoop (array.nodes.drop (array.position / array.baseSize))
        (array.position % array.baseSize) buf =
          some (chain, (array.position % array.baseSize + buf.length) / array.baseSize) ∧
      storage (array.nodes.take (array.position / array.baseSize) ++ chain) =
        overwrite (storage array.nodes) array.position buf ∧
      Uniform array.baseSize
        ((array.nodes.take (array.position / array.baseSize) ++ chain).map Node.ptr) ∧
      (array.nodes.take (array.position / array.baseSize) ++ chain).length = array.nodes.length := by
  obtain ⟨_, uniform, start, roomy, within⟩ := chain_at_cursor well some_bytes room
  obtain ⟨chain, run, stored, kept, sameLength⟩ :=
    writeLoop_spec (array.nodes.drop (array.position / array.baseSize))
      (array.position % array.baseSize) buf uniform start (by omega)
  have frontLength : (storage (array.nodes.take (array.position / array.baseSize))).length =
      array.baseSize * (array.position / array.baseSize) := by
    have bound := well.position_le_capacity
    have := Nat.div_add_mod array.position array.baseSize
    rw [storage_take well.uniform within, List.length_take, well.length_storage]
    omega
  refine ⟨chain, run, ?_, ?_, ?_⟩
  · conv_rhs => rw [← List.take_append_drop (array.position / array.baseSize) array.nodes,
      storage_append]
    rw [storage_append, stored, ← overwrite_append_right, frontLength, Nat.div_add_mod]
  · simp only [List.map_append, List.map_take]
    exact (well.uniform.take _).append kept
  · rw [List.length_append, sameLength, List.length_take, List.length_drop]
    omega

theorem write_spec (well : array.WellFormed) (buf : List UInt8) (fresh : Nat → UInt8) :
    ∃ next, array.write buf fresh = (.ok (), next) ∧ next.WellFormed ∧
      next.flat = array.flat.write buf fresh := by
  by_cases empty : buf = []
  · subst empty
    exact ⟨array, rfl, well, rfl⟩
  have some_bytes : 1 ≤ buf.length := List.length_pos_iff.mpr empty
  obtain ⟨grown, grownFlat, room⟩ := addCapacity_spec well some_bytes fresh
  have samePosition := addCapacity_position array buf.length fresh
  have sameSize := addCapacity_size array buf.length fresh
  rw [write, if_neg (by omega), Flat.write, if_neg empty, ← grownFlat]
  simp only [show array.flat.position = array.position from rfl,
    show array.flat.size = array.size from rfl, ← samePosition, ← sameSize] at room ⊢
  generalize array.addCapacity buf.length fresh = grownArray at grown room ⊢
  have cursor := (chain_at_cursor grown some_bytes room).1
  obtain ⟨chain, run, stored, uniform, wholeLength⟩ :=
    writeLoop_at_cursor grown some_bytes room le_rfl
  simp only [cursor, run, cursor_moved grown]
  refine ⟨_, rfl, ?_, ?_⟩
  · refine
      { base_pos := grown.base_pos
        uniform := uniform
        root := ?_
        capacity_eq := ?_
        position_le := ?_
        size_le := ?_
        cur_eq := ?_ }
    · have := List.length_pos_iff.mpr grown.root
      exact List.length_pos_iff.mp (by simp only [wholeLength]; exact this)
    · simp only [wholeLength, grown.capacity_eq]
    · simp only
      split <;> omega
    · have := grown.size_le
      simp only
      split <;> omega
    · exact nodeAt_congr (by simp only [wholeLength]) _
  · simp only [flat, stored, Flat.mk.injEq, true_and]
    split <;> omega

theorem read_spec (well : array.WellFormed) {size : Nat} (some_bytes : 1 ≤ size) :
    if size > array.size - array.position then array.read size = (.error .outOfRange, array)
    else array.read size = (.ok (array.flat.slice array.position size),
      array.moveTo (array.position + size) array.size) := by
  split
  · rename_i past
    rw [read, getReadSize, if_pos past]
  · rename_i present
    have := well.size_le
    have := well.position_le
    obtain ⟨cursor, uniform, start, fits, within⟩ :=
      chain_at_cursor well some_bytes (by omega)
    rw [read, getReadSize, if_neg present, cursor]
    simp only [readLoop_spec _ _ _ uniform start fits, cursor_moved well]
    rw [storage_drop well.uniform within, List.drop_drop, Nat.div_add_mod]
    rfl

theorem setPosition_spec (well : array.WellFormed) (value : Nat) :
    if value > array.capacity then array.setPosition value = (.error .outOfRange, array)
    else array.setPosition value = (.ok (), array.moveTo value (max array.size value)) := by
  split
  · rename_i past
    rw [setPosition, if_pos past]
  · rename_i within
    have stops := seekLoop_spec array.nodes value 0 well.uniform well.base_pos well.root
      (by rw [well.length_storage]; omega)
    have larger : (if value > array.size then value else array.size) = max array.size value := by
      split <;> omega
    rw [setPosition, if_neg within]
    simp only [stops, Nat.zero_add, larger]
    rfl

theorem clear_spec (well : array.WellFormed) :
    array.clear.WellFormed ∧ array.clear.flat = array.flat.clear := by
  have one : 1 ≤ array.nodes.length := List.length_pos_iff.mpr well.root
  have single : (array.nodes.take 1).length = 1 := by
    rw [List.length_take]
    omega
  refine ⟨?_, ?_⟩
  · refine
      { base_pos := well.base_pos
        uniform := ?_
        root := List.length_pos_iff.mp (by simp only [clear, single]; omega)
        capacity_eq := ?_
        position_le := le_rfl
        size_le := Nat.zero_le _
        cur_eq := ?_ }
    · simp only [clear, List.map_take]
      exact well.uniform.take 1
    · simp only [clear, single, Nat.mul_one]
    · simp only [clear, cursorAt, nodeAt, single, Nat.zero_div, Nat.lt_one_iff, if_true]
  · simp only [flat, clear, Flat.clear, storage_take well.uniform one, Nat.mul_one]

/-- The run of `getWriteBuffers`: it grows the array and walks from the cursor's node. -/
theorem getWriteBuffers_run (well : array.WellFormed) {len : Nat} (some_bytes : 1 ≤ len)
    (fresh : Nat → UInt8) :
    ∃ buffers grown, array.getWriteBuffers len fresh = (.ok (len, buffers), grown) ∧
      grown.WellFormed ∧ grown.flat = array.flat.reserve len fresh ∧
      grown.position = array.position ∧ array.position + len ≤ grown.capacity ∧
      buffersLoop (grown.nodes.drop (grown.position / grown.baseSize))
        (grown.position / grown.baseSize) (grown.position % grown.baseSize) len = some buffers ∧
      buffers.flatMap (Iovec.offsets grown.baseSize) =
        (List.range len).map (array.position + ·) := by
  obtain ⟨grown, grownFlat, room⟩ := addCapacity_spec well some_bytes fresh
  have samePosition := addCapacity_position array len fresh
  rw [getWriteBuffers, if_neg (by omega), ← grownFlat]
  rw [← samePosition] at room ⊢
  generalize array.addCapacity len fresh = grownArray at grown room ⊢
  obtain ⟨cursor, uniform, start, fits, _⟩ := chain_at_cursor grown some_bytes room
  obtain ⟨buffers, run, covered⟩ :=
    buffersLoop_spec _ (grownArray.position / grownArray.baseSize) _ len uniform start fits
  refine ⟨buffers, grownArray, ?_, grown, rfl, rfl, room, run, ?_⟩
  · simp only [cursor, run]
  · rw [covered, Nat.div_add_mod]

theorem getWriteBuffers_spec (well : array.WellFormed) (len : Nat) (fresh : Nat → UInt8) :
    ∃ buffers next, array.getWriteBuffers len fresh = (.ok (len, buffers), next) ∧
      buffers.flatMap (Iovec.offsets next.baseSize) = (List.range len).map (array.position + ·) ∧
      next.WellFormed ∧
      next.flat = if len = 0 then array.flat else array.flat.reserve len fresh := by
  by_cases none_asked : len = 0
  · subst none_asked
    exact ⟨[], array, rfl, rfl, well, rfl⟩
  · obtain ⟨buffers, grown, returned, kept, same, _, _, _, covered⟩ :=
      getWriteBuffers_run well (Nat.one_le_iff_ne_zero.mpr none_asked) fresh
    exact ⟨buffers, grown, returned, covered, kept, by rw [same, if_neg none_asked]⟩

/-! ### Calls and runs -/

/-- The calls the refinement is about: a `read` asks for at least one byte. -/
def Call.Asks : Call → Prop
  | .read size => 1 ≤ size
  | _ => True

/-- **One call** on a well-formed array is the same call on the flat array. -/
theorem call_refines (label : Call) (well : array.WellFormed) (asks : label.Asks) :
    ∃ next seen, array.call label = some (next, seen) ∧ next.WellFormed ∧
      array.flat.call label = some (next.flat, seen) := by
  cases label with
  | write buf fresh =>
      obtain ⟨next, returned, kept, same⟩ := write_spec well buf fresh
      refine ⟨next, next.view (.ok .done), ?_, kept, ?_⟩
      · simp only [call, returned]
        rfl
      · rw [Flat.call, ← same]
        rfl
  | read size =>
      have spec := read_spec well asks
      split at spec
      · rename_i past
        refine ⟨array, array.view (.error .outOfRange), ?_, well, ?_⟩
        · simp only [call, spec]
          rfl
        · rw [Flat.call]
          exact if_pos past
      · rename_i present
        have := well.position_le
        refine ⟨array.moveTo (array.position + size) array.size,
          (array.moveTo (array.position + size) array.size).view
            (.ok (.bytes (array.flat.slice array.position size))), ?_,
          moveTo_wellFormed well (by omega) well.size_le, ?_⟩
        · simp only [call, spec]
          rfl
        · rw [Flat.call]
          exact if_neg present
  | setPosition value =>
      have spec := setPosition_spec well value
      have storeLength : array.flat.store.length = array.capacity := well.length_storage
      split at spec
      · rename_i past
        refine ⟨array, array.view (.error .outOfRange), ?_, well, ?_⟩
        · simp only [call, spec]
          rfl
        · rw [Flat.call, if_pos (by rwa [storeLength])]
          rfl
      · rename_i within
        have := well.size_le
        refine ⟨array.moveTo value (max array.size value),
          (array.moveTo value (max array.size value)).view (.ok .done), ?_,
          moveTo_wellFormed well (le_max_right _ _) (by omega), ?_⟩
        · simp only [call, spec]
          rfl
        · rw [Flat.call, if_neg (by rwa [storeLength])]
          rfl
  | clear =>
      obtain ⟨kept, same⟩ := clear_spec well
      refine ⟨array.clear, array.clear.view (.ok .done), rfl, kept, ?_⟩
      rw [Flat.call, ← same]
      rfl
  | getWriteBuffers len fresh =>
      obtain ⟨buffers, next, returned, covered, kept, same⟩ := getWriteBuffers_spec well len fresh
      refine ⟨next, next.view (.ok (.buffers len ((List.range len).map (array.position + ·)))),
        ?_, kept, ?_⟩
      · simp only [call, returned, Except.map, covered]
      · rw [Flat.call, ← same]
        rfl

theorem new_wellFormed {baseSize : Nat} (base_pos : 1 ≤ baseSize) (fresh : Nat → UInt8) :
    (new baseSize fresh).WellFormed where
  base_pos := base_pos
  uniform := uniform_newNodes 1 fresh
  root := List.length_pos_iff.mp (by rw [new, length_newNodes]; omega)
  capacity_eq := by simp only [new, length_newNodes, Nat.mul_one]
  position_le := le_rfl
  size_le := Nat.zero_le _
  cur_eq := by simp only [new, cursorAt, nodeAt, length_newNodes, Nat.zero_div, Nat.lt_one_iff, if_true]

theorem new_flat (baseSize : Nat) (fresh : Nat → UInt8) :
    (new baseSize fresh).flat = Flat.new baseSize fresh := by
  simp only [flat, new, storage_newNodes, Flat.new, Nat.mul_one]

/-- A flat array has no node to be null. -/
theorem flat_call_reply (array : Flat) (label : Call) (next : Flat × View)
    (called : array.call label = some next) : next.2.reply ≠ .error .nullDeref := by
  cases label with
  | write buf fresh =>
      cases called
      exact nofun
  | read size =>
      rw [Flat.call] at called
      split at called <;> cases called <;> exact nofun
  | setPosition value =>
      rw [Flat.call] at called
      split at called <;> cases called <;> exact nofun
  | clear =>
      cases called
      exact nofun
  | getWriteBuffers len fresh =>
      cases called
      exact nofun

/-- **A refused call changes nothing.** -/
theorem call_outOfRange (well : array.WellFormed) {label : Call} (asks : label.Asks)
    {next : ByteArray} {seen : View} (called : array.call label = some (next, seen))
    (refused : seen.reply = .error .outOfRange) : next = array := by
  cases label with
  | write buf fresh =>
      obtain ⟨written, returned, _, _⟩ := write_spec well buf fresh
      simp only [call, returned] at called
      cases called
      cases refused
  | read size =>
      have spec := read_spec well asks
      split at spec
      · simp only [call, spec] at called
        cases called
        rfl
      · simp only [call, spec] at called
        cases called
        cases refused
  | setPosition value =>
      have spec := setPosition_spec well value
      split at spec
      · simp only [call, spec] at called
        cases called
        rfl
      · simp only [call, spec] at called
        cases called
        cases refused
  | clear =>
      cases called
      cases refused
  | getWriteBuffers len fresh =>
      obtain ⟨buffers, grown, returned, _, _, _⟩ := getWriteBuffers_spec well len fresh
      simp only [call, returned] at called
      cases called
      cases refused

/-- **Every call keeps the invariant**, also a read of no bytes, which moves nothing. -/
theorem call_wellFormed (label : Call) (well : array.WellFormed) {next : ByteArray} {seen : View}
    (called : array.call label = some (next, seen)) : next.WellFormed := by
  by_cases asks : label.Asks
  · obtain ⟨next', seen', called', kept, _⟩ := call_refines label well asks
    rw [called] at called'
    cases called'
    exact kept
  · cases label with
    | read size =>
        obtain rfl : size = 0 := Nat.lt_one_iff.mp (not_le.mp asks)
        have sameNext : (array.read 0).2 = next := congrArg Prod.fst (Option.some.inj called)
        rw [← sameNext, read, if_neg (Nat.not_lt_zero _)]
        cases cursor : array.cur with
        | none => exact well
        | some index =>
            have inside := (well.cur_eq_some cursor).1
            have unmoved : array.nodeAt (index + 0) = array.cur := by
              rw [Nat.add_zero, nodeAt, if_pos inside, cursor]
            simp only [readLoop_zero, unmoved]
            exact well
    | _ => exact absurd trivial asks

/-- Every state of a run is well formed. -/
theorem run_wellFormed {baseSize : Nat} (base_pos : 1 ≤ baseSize) (fresh : Nat → UInt8)
    {calls : List Call} {views : List View}
    (executed : Labelled.trace call (new baseSize fresh) calls = some (array, views)) :
    array.WellFormed :=
  Labelled.trace_invariant'
    (fun state label _ (before : state.WellFormed) called => call_wellFormed label before called)
    (new_wellFormed base_pos fresh) executed

/-- **The linked array behaves like the flat one.** Every sequence of calls on a new array executes,
shows what it shows on a flat array of the same base size and meets no null node; the array it ends
in has its position, size and capacity in order, its cursor on the node of its position, and a call
it then refuses leaves it unchanged. -/
theorem calls_refine_flat (baseSize : Nat) (base_pos : 1 ≤ baseSize) (fresh : Nat → UInt8)
    (calls : List Call) (asks : ∀ label ∈ calls, label.Asks) :
    ∃ final views, Labelled.trace call (new baseSize fresh) calls = some (final, views) ∧
      Labelled.trace Flat.call (Flat.new baseSize fresh) calls = some (final.flat, views) ∧
      (∀ seen ∈ views, seen.reply ≠ .error .nullDeref) ∧
      final.position ≤ final.size ∧ final.size ≤ final.capacity ∧
      final.capacity = final.baseSize * final.nodes.length ∧
      (final.cur = none ↔ final.position = final.capacity) ∧
      (∀ index, final.cur = some index → index < final.nodes.length ∧
        final.baseSize * index ≤ final.position ∧
        final.position < final.baseSize * (index + 1)) ∧
      ∀ label next seen, label.Asks → final.call label = some (next, seen) →
        seen.reply = .error .outOfRange → next = final := by
  obtain ⟨final, views, executed, well, executed'⟩ :=
    Labelled.trace_refines flat (fun _ label well asks => call_refines label well asks) calls
      (new baseSize fresh) (new_wellFormed base_pos fresh) asks
  rw [new_flat] at executed'
  refine ⟨final, views, executed, executed',
    Labelled.trace_outputs flat_call_reply executed', well.position_le, well.size_le,
    well.capacity_eq, well.cur_eq_none_iff, fun index cursor => ?_,
    fun label next seen asks called refused => call_outOfRange well asks called refused⟩
  obtain ⟨inside, from_here, up_to, _⟩ := well.cur_eq_some cursor
  exact ⟨inside, from_here, up_to⟩

/-- Two bytes a node: a write that ends at full capacity, the null cursor re-seated by the next
write, a refused read and a read over a node edge. -/
theorem calls_refine_flat_edges :
    ∃ final views, Labelled.trace call (new 2 fun _ => 0)
        [.write [1, 2] fun _ => 0, .write [3, 4, 5] fun _ => 0, .read 1, .setPosition 1,
          .read 3] = some (final, views) ∧
      (∀ seen ∈ views, seen.reply ≠ .error .nullDeref) ∧
      final.position ≤ final.size ∧ final.size ≤ final.capacity := by
  obtain ⟨final, views, executed, _, no_null, ordered, within, _⟩ :=
    calls_refine_flat 2 (by decide) (fun _ => 0)
      [.write [1, 2] fun _ => 0, .write [3, 4, 5] fun _ => 0, .read 1, .setPosition 1, .read 3]
      (by simp [Call.Asks])
  exact ⟨final, views, executed, no_null, ordered, within⟩

end Wyze.ByteArray
