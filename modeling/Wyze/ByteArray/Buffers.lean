/-
**Gathering: `getReadBuffers`.**

The two overloads walk the nodes from the cursor and from `m_root`; both take the size of their first
node from the cursor, which is null at full capacity. What the buffers hold (`gather`) is what `read`
would copy (`buffersLoop_read`), and `gathers_exact_iff` says that the null cursor is all that can go
wrong.
-/
import Wyze.ByteArray.ReadAt

namespace Wyze.ByteArray

open Blocks

variable {array : ByteArray} {baseSize len position : Nat}

/-- The memory that buffers cover, put together. -/
def gather (nodes : List Node) (buffers : List Iovec) : List UInt8 :=
  buffers.flatMap fun buffer =>
    (nodes[buffer.node]?.map fun node => node.load buffer.off buffer.len).getD []

/-- The loop of `getReadBuffers` at a node with `ncap` bytes left; a null node is dereferenced for
its `ptr`, and behind a full buffer for its `size`. -/
def gatherLoop : List Node → Nat → Nat → Nat → Nat → Option (List Iovec)
  | _, _, _, _, 0 => some []
  | [], _, _, _, _ + 1 => none
  | _ :: rest, index, npos, ncap, len + 1 =>
    if len + 1 ≤ ncap then some [⟨index, npos, len + 1⟩]
    else
      match rest.head? with
      | none => none
      | some next =>
        (gatherLoop rest (index + 1) 0 next.size (len + 1 - ncap)).map (⟨index, npos, ncap⟩ :: ·)

/-- `getReadBuffers(buffers, len)`: the number of bytes and the buffers appended. -/
def getReadBuffers (array : ByteArray) (len : Nat) : Except Fault (Nat × List Iovec) :=
  if len = 0 then .ok (0, [])
  else
    let len := if len > array.getReadSize then array.getReadSize else len
    let npos := array.position % array.baseSize
    match array.cur with
    | none => .error .nullDeref
    | some cur =>
      match array.nodes[cur]? with
      | none => .error .nullDeref
      | some node =>
        match gatherLoop (array.nodes.drop cur) cur npos (node.size - npos) len with
        | none => .error .nullDeref
        | some buffers => .ok (len, buffers)

/-- The walk over `count` nodes; `none` where it follows a null pointer. -/
def walk : List Node → Nat → Option (List Node)
  | chain, 0 => some chain
  | [], _ + 1 => none
  | _ :: rest, count + 1 => walk rest count

/-- `getReadBuffers(buffers, len, position)`; the first `ncap` is that of `m_cur`. -/
def getReadBuffersAt (array : ByteArray) (len position : Nat) : Except Fault (Nat × List Iovec) :=
  if len = 0 ∨ position > array.size then .ok (0, [])
  else
    let len := if len > array.size - position then array.size - position else len
    let npos := position % array.baseSize
    let count := position / array.baseSize
    match walk array.nodes count with
    | none => .error .nullDeref
    | some chain =>
      match array.cur.bind (array.nodes[·]?) with
      | none => .error .nullDeref
      | some node =>
        match gatherLoop chain count npos (node.size - npos) len with
        | none => .error .nullDeref
        | some buffers => .ok (len, buffers)

/-- `toString`. -/
def toString (array : ByteArray) : Except Fault (List UInt8) :=
  if array.getReadSize = 0 then .ok [] else array.readAt array.getReadSize array.position

/-! ### The loops -/

/-- With the size of its own node the loop is that of `getWriteBuffers`. -/
theorem gatherLoop_eq : ∀ (rest : List Node) (node : Node) (index npos len : Nat),
    gatherLoop (node :: rest) index npos (node.size - npos) len =
      buffersLoop (node :: rest) index npos len
  | _, _, _, _, 0 => rfl
  | rest, node, index, npos, len + 1 => by
    rw [gatherLoop, buffersLoop]
    split
    · rfl
    · cases rest with
      | nil =>
          rename_i across
          obtain ⟨missing, isMissing⟩ := Nat.exists_eq_succ_of_ne_zero
            (Nat.sub_ne_zero_of_lt (not_le.mp across))
          rw [isMissing]
          rfl
      | cons next rest =>
          rw [List.head?_cons]
          dsimp only
          rw [← gatherLoop_eq rest next (index + 1) 0, Nat.sub_zero]

/-- The chain as far as the loop goes makes no difference between nodes of one size. -/
theorem walk_eq_some : ∀ (nodes : List Node) (count : Nat), count ≤ nodes.length →
    walk nodes count = some (nodes.drop count)
  | _, 0, _ => by rw [walk, List.drop_zero]
  | [], count + 1, within => absurd within (Nat.not_succ_le_zero count)
  | node :: rest, count + 1, within => by
    rw [walk, walk_eq_some rest count (Nat.succ_le_succ_iff.mp within), List.drop_succ_cons]

theorem gather_cons {nodes : List Node} {buffer : Iovec} {node : Node}
    (here : nodes[buffer.node]? = some node) (buffers : List Iovec) :
    gather nodes (buffer :: buffers) =
      node.load buffer.off buffer.len ++ gather nodes buffers := by
  rw [gather, List.flatMap_cons, here]
  rfl

/-- **What the buffers hold is what `read` copies.** -/
theorem buffersLoop_read : ∀ (chain front : List Node) (npos len : Nat) {buffers : List Iovec},
    buffersLoop chain front.length npos len = some buffers →
    ∃ moved, readLoop chain npos len = some (gather (front ++ chain) buffers, moved)
  | chain, _, _, 0, buffers, run => by
    rw [buffersLoop] at run
    cases run
    exact ⟨0, readLoop_zero chain _⟩
  | [], _, _, _ + 1, _, run => by cases run
  | node :: rest, front, npos, len + 1, buffers, run => by
    have here : (front ++ node :: rest)[front.length]? = some node := by
      rw [List.getElem?_append_right le_rfl, Nat.sub_self, List.getElem?_cons_zero]
    rw [buffersLoop] at run
    rw [readLoop]
    dsimp only at run ⊢
    split at run
    · rename_i inside
      cases run
      rw [if_pos inside, gather_cons here]
      exact ⟨_, by rw [gather, List.flatMap_nil, List.append_nil]⟩
    · rename_i across
      obtain ⟨later, run', rfl⟩ := Option.map_eq_some_iff.mp run
      have longer : front.length + 1 = (front ++ [node]).length := by
        rw [List.length_append, List.length_singleton]
      rw [longer] at run'
      obtain ⟨moved, read⟩ := buffersLoop_read rest (front ++ [node]) 0 _ run'
      rw [List.append_assoc, List.singleton_append] at read
      rw [if_neg across, read, Option.map_some, gather_cons here]
      exact ⟨moved + 1, rfl⟩

theorem gatherLoop_zero (chain : List Node) (index npos ncap : Nat) :
    gatherLoop chain index npos ncap 0 = some [] := by
  cases chain <;> rfl

/-- Every node has the base size. -/
theorem size_of_mem (well : array.WellFormed) {node : Node} (member : node ∈ array.nodes) :
    node.size = array.baseSize :=
  well.uniform _ (List.mem_map_of_mem member)

/-- **The loop from a position**: the buffers cover the offsets from it on, and hold the bytes there. -/
theorem gather_from (well : array.WellFormed) {start len : Nat} (some_bytes : 1 ≤ len)
    (fits : start + len ≤ array.capacity) :
    ∃ buffers, gatherLoop (array.nodes.drop (start / array.baseSize)) (start / array.baseSize)
          (start % array.baseSize) (array.baseSize - start % array.baseSize) len = some buffers ∧
      buffers.flatMap (Iovec.offsets array.baseSize) = (List.range len).map (start + ·) ∧
      gather array.nodes buffers = array.flat.slice start len := by
  have inside : start / array.baseSize < array.nodes.length := by
    rw [Nat.div_lt_iff_lt_mul well.base_pos, Nat.mul_comm, ← well.capacity_eq]
    omega
  have split := Nat.div_add_mod start array.baseSize
  have offset := Nat.mod_lt start well.base_pos
  have uniform : Uniform array.baseSize
      ((array.nodes.drop (start / array.baseSize)).map Node.ptr) := by
    rw [List.map_drop]
    exact well.uniform.drop _
  have room : start % array.baseSize + len ≤
      (storage (array.nodes.drop (start / array.baseSize))).length := by
    rw [storage_drop well.uniform inside.le, List.length_drop, well.length_storage]
    omega
  obtain ⟨buffers, run, covered⟩ := buffersLoop_spec _ (start / array.baseSize) _ len uniform offset room
  have frontLength : (array.nodes.take (start / array.baseSize)).length = start / array.baseSize :=
    List.length_take_of_le inside.le
  obtain ⟨moved, read⟩ := buffersLoop_read (array.nodes.drop (start / array.baseSize))
    (array.nodes.take (start / array.baseSize)) (start % array.baseSize) len
    (by rw [frontLength]; exact run)
  rw [readLoop_spec _ _ _ uniform offset room, List.take_append_drop, Option.some.injEq,
    Prod.mk.injEq, storage_drop well.uniform inside.le, List.drop_drop, split] at read
  have first := List.drop_eq_getElem_cons inside
  have size := size_of_mem well (List.getElem_mem inside)
  refine ⟨buffers, ?_, ?_, read.1.symm⟩
  · have sameLoop := gatherLoop_eq (array.nodes.drop (start / array.baseSize + 1))
      array.nodes[start / array.baseSize] (start / array.baseSize) (start % array.baseSize) len
    rw [size, ← first, run] at sameLoop
    exact sameLoop
  · rw [covered, split]

/-! ### The overloads -/

/-- **The buffers are what was asked for**: they cover the next `len` offsets from the position, or
those that there are, and hold the bytes there. -/
def Gathers (array : ByteArray) (position len : Nat)
    (result : Except Fault (Nat × List Iovec)) : Prop :=
  ∃ buffers, result = .ok (min len (array.size - position), buffers) ∧
    buffers.flatMap (Iovec.offsets array.baseSize) =
      (List.range (min len (array.size - position))).map (position + ·) ∧
    gather array.nodes buffers = array.flat.slice position (min len (array.size - position))

theorem gathers_nothing {result : Except Fault (Nat × List Iovec)} (returned : result = .ok (0, []))
    (nothing : min len (array.size - position) = 0) : array.Gathers position len result := by
  refine ⟨[], ?_, ?_, ?_⟩
  · rw [returned, nothing]
  · rw [nothing]
    rfl
  · rw [nothing, Flat.slice, List.take_zero]
    rfl

theorem ite_gt_eq_min (len available : Nat) :
    (if len > available then available else len) = min len available := by
  split <;> omega

/-- A null cursor is dereferenced. -/
theorem not_gathers_error {result : Except Fault (Nat × List Iovec)} {fault : Fault}
    (failed : result = .error fault) : ¬ array.Gathers position len result := by
  rintro ⟨buffers, returned, _⟩
  rw [failed] at returned
  cases returned

/-- **The loop from a position up to the size** gathers what is there. -/
theorem gatherLoop_gathers (well : array.WellFormed) (len : Nat) {start : Nat}
    (within : start ≤ array.size) :
    ∃ buffers, gatherLoop (array.nodes.drop (start / array.baseSize)) (start / array.baseSize)
        (start % array.baseSize) (array.baseSize - start % array.baseSize)
        (min len (array.size - start)) = some buffers ∧
      array.Gathers start len (.ok (min len (array.size - start), buffers)) := by
  have bound := well.size_le
  by_cases nothing : min len (array.size - start) = 0
  · rw [nothing]
    exact ⟨[], gatherLoop_zero _ _ _ _, gathers_nothing rfl nothing⟩
  · obtain ⟨buffers, run, covered, held⟩ := gather_from well
      (Nat.one_le_iff_ne_zero.mpr nothing) (by omega : start + _ ≤ array.capacity)
    exact ⟨buffers, run, buffers, rfl, covered, held⟩

/-- **The first overload** needs the cursor. -/
theorem getReadBuffers_gathers_iff (well : array.WellFormed) (len : Nat) :
    array.Gathers array.position len (array.getReadBuffers len) ↔
      len = 0 ∨ array.position < array.capacity := by
  rw [getReadBuffers, ite_gt_eq_min, getReadSize]
  by_cases nothing : len = 0
  · rw [if_pos nothing]
    exact iff_of_true (gathers_nothing rfl (by omega)) (Or.inl nothing)
  rw [if_neg nothing, or_iff_right nothing]
  by_cases below : array.position < array.capacity
  · refine iff_of_true ?_ below
    have cursor := well.cur_of_lt below
    have inside := (well.cur_eq_some cursor).1
    obtain ⟨buffers, run, gathers⟩ := gatherLoop_gathers well len well.position_le
    simp only [cursor, List.getElem?_eq_getElem inside, size_of_mem well (List.getElem_mem inside), run]
    exact gathers
  · refine iff_of_false (not_gathers_error (show _ = Except.error Fault.nullDeref from ?_)) below
    rw [well.cur_eq_none_iff.mpr (Nat.le_antisymm well.position_le_capacity (not_lt.mp below))]

/-- **The second overload** needs the cursor, too, wherever it starts. -/
theorem getReadBuffersAt_gathers_iff (well : array.WellFormed) (len : Nat) {position : Nat}
    (within : position ≤ array.size) :
    array.Gathers position len (array.getReadBuffersAt len position) ↔
      len = 0 ∨ array.position < array.capacity := by
  rw [getReadBuffersAt, ite_gt_eq_min]
  by_cases nothing : len = 0
  · rw [if_pos (Or.inl nothing)]
    exact iff_of_true (gathers_nothing rfl (by omega)) (Or.inl nothing)
  rw [if_neg (not_or.mpr ⟨nothing, not_lt.mpr within⟩), or_iff_right nothing]
  have walked : walk array.nodes (position / array.baseSize) =
      some (array.nodes.drop (position / array.baseSize)) := by
    refine walk_eq_some _ _ (Nat.div_le_of_le_mul ?_)
    rw [← well.capacity_eq]
    exact within.trans well.size_le
  dsimp only
  rw [walked]
  dsimp only
  by_cases below : array.position < array.capacity
  · refine iff_of_true ?_ below
    have cursor := well.cur_of_lt below
    have inside := (well.cur_eq_some cursor).1
    obtain ⟨buffers, run, gathers⟩ := gatherLoop_gathers well len within
    simp only [cursor, Option.bind_some, List.getElem?_eq_getElem inside,
      size_of_mem well (List.getElem_mem inside), run]
    exact gathers
  · refine iff_of_false (not_gathers_error (show _ = Except.error Fault.nullDeref from ?_)) below
    rw [well.cur_eq_none_iff.mpr (Nat.le_antisymm well.position_le_capacity (not_lt.mp below)),
      Option.bind_none]

/-- **`toString`** gives the bytes from the cursor to the size: there the cursor is on its node. -/
theorem toString_eq (well : array.WellFormed) (word : array.capacity < 2 ^ 64) :
    array.toString = .ok (array.flat.slice array.position array.getReadSize) := by
  have ordered := well.position_le
  have bound := well.size_le
  rw [toString]
  split
  · rename_i nothing
    rw [nothing, Flat.slice, List.take_zero]
  · rename_i something
    rw [getReadSize] at something ⊢
    have passed : array.size - array.position > sub64 array.size array.position ↔ _ :=
      bound_iff (by omega) (by omega)
    rw [if_pos ordered] at passed
    rw [readAt_eq well (by omega) (by rw [passed]; omega), readAtStart_eq rfl,
      if_pos ⟨by omega, by omega⟩]

/-- **Both overloads gather what is there exactly when the cursor is not at full capacity**, or
nothing is asked for. In every state of a run, for every length and every position up to the size,
they return the smaller of the length and what is there, with buffers that cover these offsets in
order and hold their bytes, which are those of `toString` and of a `read` at that place. -/
theorem gathers_exact_iff (baseSize : Nat) (base_pos : 1 ≤ baseSize) (fresh : Nat → UInt8)
    (calls : List Call) {views : List View}
    (executed : Labelled.trace call (new baseSize fresh) calls = some (array, views))
    (word : array.capacity < 2 ^ 64) (len : Nat) :
    (array.Gathers array.position len (array.getReadBuffers len) ↔
        len = 0 ∨ array.position < array.capacity) ∧
      (∀ position, position ≤ array.size →
        (array.Gathers position len (array.getReadBuffersAt len position) ↔
          len = 0 ∨ array.position < array.capacity)) ∧
      array.toString = .ok (array.flat.slice array.position array.getReadSize) ∧
      ∀ position size, 1 ≤ size → position + size ≤ array.size →
        ((array.setPosition position).2.read size).1 = .ok (array.flat.slice position size) := by
  have well := run_wellFormed base_pos fresh executed
  exact ⟨getReadBuffers_gathers_iff well len,
    fun position within => getReadBuffersAt_gathers_iff well len within, toString_eq well word,
    fun position size some_bytes present => setPosition_read well some_bytes present⟩

/-- Four bytes a node: six bytes over a node edge, from the first byte on. -/
theorem gathers_exact_edge :
    ∃ array views, Labelled.trace call (new 4 fun _ => 0)
        [.write [1, 2, 3, 4, 5, 6, 7] fun _ => 0] = some (array, views) ∧
      array.Gathers 0 6 (array.getReadBuffersAt 6 0) := by
  have executed : Labelled.trace call (new 4 fun _ => 0)
      [.write [1, 2, 3, 4, 5, 6, 7] fun _ => 0] = some (_, _) := rfl
  exact ⟨_, _, executed, ((gathers_exact_iff 4 (by decide) (fun _ => 0) _ executed (by decide)
    6).2.1 0 (by decide)).mpr (by decide)⟩

/-- **At full capacity both overloads dereference the null cursor**, also where there are bytes to
gather, and where there are none. -/
theorem gathers_exact_fails :
    ∃ array views, Labelled.trace call (new 4 fun _ => 0)
        [.write [1, 2, 3, 4] fun _ => 0] = some (array, views) ∧
      array.getReadBuffers 1 = .error .nullDeref ∧
      ¬ array.Gathers array.position 1 (array.getReadBuffers 1) ∧
      array.getReadBuffersAt 1 0 = .error .nullDeref ∧
      ¬ array.Gathers 0 1 (array.getReadBuffersAt 1 0) :=
  ⟨_, _, rfl, rfl, not_gathers_error rfl, rfl, not_gathers_error rfl⟩

end Wyze.ByteArray
