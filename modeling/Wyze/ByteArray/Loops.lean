/-
**The copy loops of the byte array, on any chain of nodes of one size.**

Each loop is described once, by induction on the chain: as long as the bytes asked for lie inside the
chain it follows only `next` pointers that are not null, it does on the nodes what the flat operation
does on their concatenation, and it moves the cursor by `(npos + len) / baseSize` nodes.
-/
import Wyze.ByteArray.Flat

namespace Wyze.ByteArray

open Blocks

variable {baseSize : Nat}

@[simp]
theorem storage_nil : storage [] = [] := rfl

@[simp]
theorem storage_cons (node : Node) (nodes : List Node) :
    storage (node :: nodes) = node.ptr ++ storage nodes := rfl

theorem storage_append (first second : List Node) :
    storage (first ++ second) = storage first ++ storage second := by
  simp [storage]

theorem storage_take {nodes : List Node} (uniform : Uniform baseSize (nodes.map Node.ptr))
    {count : Nat} (within : count ≤ nodes.length) :
    storage (nodes.take count) = (storage nodes).take (baseSize * count) := by
  rw [storage, List.map_take, uniform.flatten_take (by rwa [List.length_map]), storage]

theorem storage_drop {nodes : List Node} (uniform : Uniform baseSize (nodes.map Node.ptr))
    {count : Nat} (within : count ≤ nodes.length) :
    storage (nodes.drop count) = (storage nodes).drop (baseSize * count) := by
  rw [storage, List.map_drop, uniform.flatten_drop (by rwa [List.length_map]), storage]

/-- Where a copy of `len` bytes from `npos` on ends, in nodes. -/
theorem moved_within {npos len : Nat} (start : npos < baseSize) (fits : npos + len ≤ baseSize) :
    (if baseSize = npos + len then 1 else 0) = (npos + len) / baseSize := by
  split
  · rename_i full
    rw [← full, Nat.div_self (by omega)]
  · rw [Nat.div_eq_of_lt (by omega)]

/-- The same for a copy that runs over the end of its first node. -/
theorem moved_across {npos len : Nat} (start : npos < baseSize) (across : baseSize < npos + len) :
    (0 + (len - (baseSize - npos))) / baseSize + 1 = (npos + len) / baseSize := by
  have split : npos + len = (len - (baseSize - npos)) + baseSize := by omega
  rw [split, Nat.add_div_right _ (by omega), Nat.zero_add]

/-- **The loop of `write`.** -/
theorem writeLoop_spec :
    ∀ (chain : List Node) (npos : Nat) (buf : List UInt8),
      Uniform baseSize (chain.map Node.ptr) → npos < baseSize →
      npos + buf.length ≤ (storage chain).length →
      ∃ written, writeLoop chain npos buf = some (written, (npos + buf.length) / baseSize) ∧
        storage written = overwrite (storage chain) npos buf ∧
        Uniform baseSize (written.map Node.ptr) ∧ written.length = chain.length := by
  intro chain
  induction chain with
  | nil =>
      intro npos buf uniform start fits
      cases buf with
      | nil => exact ⟨[], by simp [writeLoop, Nat.div_eq_of_lt start], by simp, uniform, rfl⟩
      | cons byte bytes =>
          simp only [storage_nil, List.length_nil, List.length_cons] at fits
          omega
  | cons node rest ih =>
      intro npos buf uniform start fits
      have nodeSize : node.ptr.length = baseSize := uniform.head
      cases buf with
      | nil => exact ⟨node :: rest, by simp [writeLoop, Nat.div_eq_of_lt start], by simp, uniform, rfl⟩
      | cons byte bytes =>
          rw [writeLoop]
          generalize byte :: bytes = buf at fits ⊢
          simp only [Node.size, nodeSize]
          by_cases inside : buf.length ≤ baseSize - npos
          · -- the node takes the rest of the bytes
            have within : npos + buf.length ≤ node.ptr.length := by omega
            refine ⟨node.store npos buf :: rest, ?_, ?_, ?_, rfl⟩
            · rw [if_pos inside, moved_within start (by omega)]
            · rw [storage_cons, storage_cons, overwrite_append_left within]
              rfl
            · exact uniform.tail.cons ((length_overwrite within).trans nodeSize)
          · -- the node is filled and the loop goes on at the start of the next one
            have front : (buf.take (baseSize - npos)).length = baseSize - npos := by
              rw [List.length_take]
              omega
            have reaches : npos + (buf.take (baseSize - npos)).length = node.ptr.length := by omega
            have room : 0 + (buf.drop (baseSize - npos)).length ≤ (storage rest).length := by
              rw [storage_cons, List.length_append] at fits
              rw [List.length_drop]
              omega
            obtain ⟨chain, run, stored, kept, same⟩ :=
              ih 0 (buf.drop (baseSize - npos)) uniform.tail (by omega) room
            refine ⟨node.store npos (buf.take (baseSize - npos)) :: chain, ?_, ?_, ?_, ?_⟩
            · rw [if_neg inside, run, List.length_drop, ← moved_across start (by omega)]
              rfl
            · rw [storage_cons, storage_cons, stored]
              conv_rhs => rw [← List.take_append_drop (baseSize - npos) buf]
              rw [overwrite_append_across reaches]
              rfl
            · exact kept.cons ((length_overwrite reaches.le).trans nodeSize)
            · rw [List.length_cons, same, List.length_cons]

/-- A read of no bytes looks at no node. -/
theorem readLoop_zero (chain : List Node) (npos : Nat) : readLoop chain npos 0 = some ([], 0) := by
  cases chain <;> rfl

/-- **The loop of `read`.** -/
theorem readLoop_spec :
    ∀ (chain : List Node) (npos size : Nat), Uniform baseSize (chain.map Node.ptr) →
      npos < baseSize → npos + size ≤ (storage chain).length →
      readLoop chain npos size =
        some (((storage chain).drop npos).take size, (npos + size) / baseSize) := by
  intro chain
  induction chain with
  | nil =>
      intro npos size _ start fits
      simp only [storage_nil, List.length_nil, Nat.le_zero_eq, Nat.add_eq_zero_iff] at fits
      rw [fits.2, readLoop, List.take_zero, Nat.add_zero, Nat.div_eq_of_lt start]
  | cons node rest ih =>
      intro npos size uniform start fits
      have nodeSize : node.ptr.length = baseSize := uniform.head
      cases size with
      | zero => rw [readLoop, List.take_zero, Nat.add_zero, Nat.div_eq_of_lt start]
      | succ size =>
          rw [readLoop]
          generalize size + 1 = size at fits ⊢
          simp only [Node.size, Node.load, nodeSize]
          rw [storage_cons, List.length_append, nodeSize] at fits
          rw [storage_cons, List.drop_append_of_le_length (by omega)]
          by_cases inside : size ≤ baseSize - npos
          · rw [if_pos inside, moved_within start (by omega),
              List.take_append_of_le_length (by rw [List.length_drop]; omega)]
          · rw [if_neg inside, ih 0 _ uniform.tail (by omega) (by omega), Option.map_some,
              moved_across start (by omega)]
            have tail : (node.ptr.drop npos).length = baseSize - npos := by
              rw [List.length_drop, nodeSize]
            have whole : ∀ len, baseSize - npos ≤ len →
                (node.ptr.drop npos).take len = node.ptr.drop npos := fun len enough =>
              List.take_of_length_le (by omega)
            rw [List.take_append, tail, whole _ le_rfl, whole _ (by omega), List.drop_zero]

/-- A read over the end of the chain follows a null pointer. -/
theorem readLoop_eq_none :
    ∀ (chain : List Node) (npos size : Nat), Uniform baseSize (chain.map Node.ptr) →
      npos < baseSize → (storage chain).length < npos + size → 1 ≤ size →
      readLoop chain npos size = none := by
  intro chain
  induction chain with
  | nil =>
      intro npos size _ _ _ some_bytes
      obtain ⟨size, rfl⟩ := Nat.exists_eq_succ_of_ne_zero (Nat.one_le_iff_ne_zero.mp some_bytes)
      rfl
  | cons node rest ih =>
      intro npos size uniform start past some_bytes
      have nodeSize : node.ptr.length = baseSize := uniform.head
      obtain ⟨size, rfl⟩ := Nat.exists_eq_succ_of_ne_zero (Nat.one_le_iff_ne_zero.mp some_bytes)
      rw [storage_cons, List.length_append, nodeSize] at past
      rw [readLoop, Node.size, nodeSize, if_neg (by omega),
        ih 0 _ uniform.tail (by omega) (by omega) (by omega), Option.map_none]

/-- **The loop of `getWriteBuffers`**: the buffers cover the next `len` offsets in order. -/
theorem buffersLoop_spec :
    ∀ (chain : List Node) (index npos len : Nat), Uniform baseSize (chain.map Node.ptr) →
      npos < baseSize → npos + len ≤ (storage chain).length →
      ∃ buffers, buffersLoop chain index npos len = some buffers ∧
        buffers.flatMap (Iovec.offsets baseSize) =
          (List.range len).map (baseSize * index + npos + ·) := by
  intro chain
  induction chain with
  | nil =>
      intro index npos len _ _ fits
      simp only [storage_nil, List.length_nil, Nat.le_zero_eq, Nat.add_eq_zero_iff] at fits
      rw [fits.2]
      exact ⟨[], rfl, rfl⟩
  | cons node rest ih =>
      intro index npos len uniform start fits
      have nodeSize : node.ptr.length = baseSize := uniform.head
      cases len with
      | zero => exact ⟨[], rfl, rfl⟩
      | succ len =>
          rw [buffersLoop]
          generalize len + 1 = len at fits ⊢
          simp only [Node.size, nodeSize]
          rw [storage_cons, List.length_append, nodeSize] at fits
          by_cases inside : len ≤ baseSize - npos
          · rw [if_pos inside]
            exact ⟨_, rfl, by simp [Iovec.offsets]⟩
          · obtain ⟨buffers, run, covered⟩ := ih (index + 1) 0 (len - (baseSize - npos))
              uniform.tail (by omega) (by omega)
            refine ⟨⟨index, npos, baseSize - npos⟩ :: buffers, by rw [if_neg inside, run]; rfl, ?_⟩
            rw [List.flatMap_cons, covered]
            -- the second part starts where the first node ends
            have whole : len = (baseSize - npos) + (len - (baseSize - npos)) := by omega
            conv_rhs => rw [whole, List.range_add, List.map_append, List.map_map]
            congr 1
            apply List.map_congr_left
            intro offset _
            simp only [Function.comp_apply, Nat.mul_succ]
            omega

/-- **The loop of `setPosition`** stops at the node that contains the position. -/
theorem seekLoop_spec :
    ∀ (chain : List Node) (value index : Nat), Uniform baseSize (chain.map Node.ptr) →
      1 ≤ baseSize → chain ≠ [] → value ≤ (storage chain).length →
      seekLoop chain value index = some (index + value / baseSize) := by
  intro chain
  induction chain with
  | nil => exact fun _ _ _ _ nonempty _ => absurd rfl nonempty
  | cons node rest ih =>
      intro value index uniform base_pos _ fits
      have nodeSize : node.ptr.length = baseSize := uniform.head
      simp only [seekLoop, Node.size, nodeSize]
      rw [storage_cons, List.length_append, nodeSize] at fits
      by_cases past : value > baseSize
      · have nonempty : rest ≠ [] := by
          rintro rfl
          simp only [storage_nil, List.length_nil] at fits
          omega
        have split : value = (value - baseSize) + baseSize := by omega
        rw [if_pos past, ih _ _ uniform.tail base_pos nonempty (by omega)]
        conv_rhs => rw [split, Nat.add_div_right _ (by omega)]
        congr 1
        omega
      · rw [if_neg past]
        by_cases edge : value = baseSize
        · rw [if_pos edge, edge, Nat.div_self (by omega)]
        · rw [if_neg edge, Nat.div_eq_of_lt (by omega), Nat.add_zero]

/-! ### New nodes -/

@[simp]
theorem length_newNodes (count : Nat) (fresh : Nat → UInt8) :
    (newNodes baseSize count fresh).length = count := by
  simp [newNodes]

theorem uniform_newNodes (count : Nat) (fresh : Nat → UInt8) :
    Uniform baseSize ((newNodes baseSize count fresh).map Node.ptr) := by
  intro block member
  simp only [newNodes, List.map_map, List.mem_map, Function.comp_apply] at member
  obtain ⟨_, _, rfl⟩ := member
  simp

theorem storage_newNodes (count : Nat) (fresh : Nat → UInt8) :
    storage (newNodes baseSize count fresh) = (List.range (baseSize * count)).map fresh := by
  induction count with
  | zero => simp [newNodes, storage]
  | succ count ih =>
      have last : newNodes baseSize (count + 1) fresh = newNodes baseSize count fresh ++
          [⟨(List.range baseSize).map fun byte => fresh (baseSize * count + byte)⟩] := by
        simp [newNodes, List.range_succ]
      rw [last, storage_append, ih, Nat.mul_succ, List.range_add, List.map_append, List.map_map]
      simp [Function.comp_def]

end Wyze.ByteArray
