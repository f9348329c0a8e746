/-
**Storage cut into blocks of one size.**

`overwrite store start data` is `store` with `data` copied over it from `start` on. The lemmas below
say how it and `take`/`drop` meet a store that is the concatenation of blocks of equal length: a copy
that stays in the first block, and one that runs over its end.
-/
import Mathlib.Data.List.Basic
import Mathlib.Algebra.Order.Group.Nat

namespace Blocks

variable {α : Type*}

/-- The store with `data` copied over it from `start` on. -/
def overwrite (store : List α) (start : Nat) (data : List α) : List α :=
  store.take start ++ data ++ store.drop (start + data.length)

@[simp]
theorem overwrite_nil (store : List α) (start : Nat) : overwrite store start [] = store := by
  simp [overwrite]

theorem length_overwrite {store data : List α} {start : Nat}
    (fits : start + data.length ≤ store.length) :
    (overwrite store start data).length = store.length := by
  simp only [overwrite, List.length_append, List.length_take, List.length_drop]
  omega

/-- In front of the end of the copy are the old bytes before it and the data. -/
theorem take_overwrite {store : List α} {start : Nat} (inside : start ≤ store.length)
    (data : List α) : (overwrite store start data).take (start + data.length) =
      store.take start ++ data := by
  have front : (store.take start ++ data).length = start + data.length := by
    rw [List.length_append, List.length_take, Nat.min_eq_left inside]
  rw [overwrite, ← front, List.take_left]

/-- A copy that goes on where another one has ended is one copy. -/
theorem overwrite_overwrite {store : List α} {start : Nat} (inside : start ≤ store.length)
    (first second : List α) :
    overwrite (overwrite store start first) (start + first.length) second =
      overwrite store start (first ++ second) := by
  have front : (store.take start ++ first).length = start + first.length := by
    rw [List.length_append, List.length_take, Nat.min_eq_left inside]
  have behind : (overwrite store start first).drop (start + first.length + second.length) =
      store.drop (start + (first ++ second).length) := by
    rw [overwrite, ← front, List.drop_length_add_append, List.drop_drop, List.length_append,
      List.length_take, Nat.min_eq_left inside, List.length_append, Nat.add_assoc]
  rw [overwrite, take_overwrite inside, behind, overwrite, List.append_assoc (store.take start)]

/-- A copy that starts inside the first `size` elements: what is up to the end of these, or of the
copy, is the copy over them, and what is behind them does not show. -/
theorem take_max_overwrite {store data : List α} {start size : Nat} (inside : start ≤ size)
    (within : size ≤ store.length) (more : List α) :
    (overwrite (store ++ more) start data).take (max size (start + data.length)) =
      overwrite (store.take size) start data := by
  have front : ((store ++ more).take start ++ data).length = start + data.length := by
    rw [List.length_append, List.length_take, List.length_append, Nat.min_eq_left (by omega)]
  have rest : max size (start + data.length) - (start + data.length) =
      size - (start + data.length) := by omega
  rw [overwrite, overwrite, List.take_append, front, rest, ← List.drop_take,
    List.take_of_length_le (by rw [front]; exact le_max_right _ _),
    List.take_append_of_le_length within, List.take_append_of_le_length (inside.trans within),
    List.take_take, Nat.min_eq_left inside]

/-- A copy inside the first part leaves the second part alone. -/
theorem overwrite_append_left {first second data : List α} {start : Nat}
    (fits : start + data.length ≤ first.length) :
    overwrite (first ++ second) start data = overwrite first start data ++ second := by
  have before : start ≤ first.length := le_trans (Nat.le_add_right _ _) fits
  simp only [overwrite, List.take_append_of_le_length before, List.drop_append_of_le_length fits,
    List.append_assoc]

/-- A copy behind the first part leaves the first part alone. -/
theorem overwrite_append_right (first second data : List α) (start : Nat) :
    overwrite (first ++ second) (first.length + start) data =
      first ++ overwrite second start data := by
  simp only [overwrite, List.take_length_add_append, Nat.add_assoc, List.drop_length_add_append,
    List.append_assoc]

/-- A copy over the end of the first part is a copy up to that end and one from the start of the
second part. -/
theorem overwrite_append_across {first second front back : List α} {start : Nat}
    (reaches : start + front.length = first.length) :
    overwrite (first ++ second) start (front ++ back) =
      overwrite first start front ++ overwrite second 0 back := by
  have before : start ≤ first.length := by omega
  have past : start + (front ++ back).length = first.length + back.length := by
    rw [List.length_append]
    omega
  simp only [overwrite, past, List.take_append_of_le_length before, List.drop_length_add_append,
    reaches, List.drop_length, List.append_nil, List.take_zero, List.nil_append, Nat.zero_add,
    List.append_assoc]

/-- Every block has the same length. -/
def Uniform (size : Nat) (blocks : List (List α)) : Prop :=
  ∀ block ∈ blocks, block.length = size

namespace Uniform

variable {size : Nat} {block : List α} {blocks more : List (List α)}

theorem head (uniform : Uniform size (block :: blocks)) : block.length = size :=
  uniform block List.mem_cons_self

theorem tail (uniform : Uniform size (block :: blocks)) : Uniform size blocks :=
  fun other member => uniform other (List.mem_cons_of_mem _ member)

theorem cons (first : block.length = size) (rest : Uniform size blocks) :
    Uniform size (block :: blocks) := by
  intro other member
  rcases List.mem_cons.mp member with rfl | member
  · exact first
  · exact rest other member

theorem append (first : Uniform size blocks) (second : Uniform size more) :
    Uniform size (blocks ++ more) := by
  intro other member
  rcases List.mem_append.mp member with member | member
  · exact first other member
  · exact second other member

theorem take (uniform : Uniform size blocks) (count : Nat) : Uniform size (blocks.take count) :=
  fun other member => uniform other (List.mem_of_mem_take member)

theorem drop (uniform : Uniform size blocks) (count : Nat) : Uniform size (blocks.drop count) :=
  fun other member => uniform other (List.mem_of_mem_drop member)

theorem length_flatten (uniform : Uniform size blocks) :
    blocks.flatten.length = size * blocks.length := by
  induction blocks with
  | nil => simp
  | cons block blocks ih =>
      rw [List.flatten_cons, List.length_append, uniform.head, ih uniform.tail, List.length_cons,
        Nat.mul_succ, Nat.add_comm]

theorem flatten_take (uniform : Uniform size blocks) {count : Nat} (within : count ≤ blocks.length) :
    (blocks.take count).flatten = blocks.flatten.take (size * count) := by
  have front : (blocks.take count).flatten.length = size * count := by
    rw [(uniform.take count).length_flatten, List.length_take, Nat.min_eq_left within]
  conv_rhs => rw [← List.take_append_drop count blocks, List.flatten_append, ← front]
  rw [List.take_left]

theorem flatten_drop (uniform : Uniform size blocks) {count : Nat} (within : count ≤ blocks.length) :
    (blocks.drop count).flatten = blocks.flatten.drop (size * count) := by
  have front : (blocks.take count).flatten.length = size * count := by
    rw [(uniform.take count).length_flatten, List.length_take, Nat.min_eq_left within]
  conv_rhs => rw [← List.take_append_drop count blocks, List.flatten_append, ← front]
  rw [List.drop_left]

end Uniform

end Blocks
