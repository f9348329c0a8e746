/-
**An ordered set whose keys live outside it.**

A set of handles is kept as the list of its members in the order of `key`, where `key` may change
between two operations: that is how a tree of pointers behaves whose comparator reads the objects
pointed to. The operations only ever compare keys.

* `find_eq_some` — on an ordered set `find` hits exactly the members.
* `erase_spec`, `insert_spec`, `head?_insert` — what the two updates do to an ordered set.
* `lt_rank_of_mem_dropWhile` — a cut behind the members of one rank.
* `Ordered.congr` — an update of the keys of non-members keeps the order.
-/
import Mathlib.Data.List.Basic
import Mathlib.Order.Basic
import Mathlib.Order.Defs.LinearOrder
import Mathlib.Order.Lattice

namespace OrderedSet

variable {α κ : Type*} [LinearOrder κ] (key : α → κ)

/-- The members whose key is below the target. -/
def below (target : κ) (members : List α) : List α :=
  members.takeWhile fun member => decide (key member < target)

/-- The members from the first one on whose key is not below the target. -/
def lowerBound (target : κ) (members : List α) : List α :=
  members.dropWhile fun member => decide (key member < target)

/-- The member with the target as its key. -/
def find (target : κ) (members : List α) : Option α :=
  (lowerBound key target members).head?.filter fun member => decide (¬ target < key member)

/-- The set without the member that `find` finds; `none` when it finds none. -/
def erase (target : κ) (members : List α) : Option (List α) :=
  (find key target members).map fun _ =>
    below key target members ++ (lowerBound key target members).tail

/-- The set with one more member, unless there is one with its key. -/
def insert (member : α) (members : List α) : List α :=
  if (find key (key member) members).isSome then members
  else below key (key member) members ++ member :: lowerBound key (key member) members

/-- The members stand in strictly increasing order of their keys. -/
def Ordered (members : List α) : Prop := members.Pairwise fun first second => key first < key second

variable {key} {members : List α} {target : κ}

theorem Ordered.nodup (ordered : Ordered key members) : members.Nodup :=
  List.Pairwise.imp (fun {first second} smaller same => by subst same; exact lt_irrefl _ smaller)
    ordered

/-- The order only depends on the keys of the members. -/
theorem Ordered.congr {key' : α → κ} (ordered : Ordered key members)
    (same : ∀ member ∈ members, key' member = key member) : Ordered key' members :=
  List.Pairwise.imp_of_mem
    (fun {first second} inFirst inSecond smaller => by
      rwa [same first inFirst, same second inSecond])
    ordered

/-- Ordered sets with the same members are the same. -/
theorem Ordered.ext {members' : List α} (ordered : Ordered key members)
    (ordered' : Ordered key members') (same : ∀ member, member ∈ members ↔ member ∈ members') :
    members = members' := by
  have perm := (List.perm_ext_iff_of_nodup ordered.nodup ordered'.nodup).mpr same
  exact List.Perm.eq_of_pairwise
    (fun first second _ _ smaller greater => absurd greater smaller.asymm) ordered ordered' perm

theorem Ordered.sublist {members' : List α} (ordered : Ordered key members)
    (sub : members'.Sublist members) : Ordered key members' :=
  List.Pairwise.sublist sub ordered

theorem below_append_lowerBound (key : α → κ) (target : κ) (members : List α) :
    below key target members ++ lowerBound key target members = members :=
  List.takeWhile_append_dropWhile

theorem key_lt_of_mem_below {member : α} (low : member ∈ below key target members) :
    key member < target := by
  have all := List.all_eq_true.mp (List.all_takeWhile (l := members)) member low
  exact of_decide_eq_true all

/-- From the lower bound on, no key is below the target. -/
theorem Ordered.le_key_of_mem_lowerBound (ordered : Ordered key members) {member : α}
    (high : member ∈ lowerBound key target members) : target ≤ key member := by
  induction members with
  | nil => cases high
  | cons head rest ih =>
      obtain ⟨first, ordered'⟩ := List.pairwise_cons.mp ordered
      by_cases low : key head < target
      · rw [lowerBound, List.dropWhile_cons_of_pos (by simpa using low)] at high
        exact ih ordered' high
      · rw [lowerBound, List.dropWhile_cons_of_neg (by simpa using low)] at high
        rcases List.mem_cons.mp high with rfl | later
        · exact not_lt.mp low
        · exact (not_lt.mp low).trans (first member later).le

/-- Once the members of the least rank are skipped, a list in the order of ranks has higher ones
only. -/
theorem lt_rank_of_mem_dropWhile {rank : α → κ} {least : κ} (above : ∀ member ∈ members,
    least ≤ rank member) (sorted : members.Pairwise fun first second => rank first ≤ rank second)
    {member : α} (left : member ∈ members.dropWhile fun other => decide (rank other = least)) :
    least < rank member := by
  induction members with
  | nil => cases left
  | cons head rest ih =>
      obtain ⟨first, sorted'⟩ := List.pairwise_cons.mp sorted
      by_cases same : rank head = least
      · rw [List.dropWhile_cons_of_pos (by simpa using same)] at left
        exact ih (fun other inRest => above other (List.mem_cons_of_mem _ inRest)) sorted' left
      · rw [List.dropWhile_cons_of_neg (by simpa using same)] at left
        have higher := lt_of_le_of_ne (above head List.mem_cons_self) (Ne.symm same)
        rcases List.mem_cons.mp left with rfl | later
        · exact higher
        · exact higher.trans_le (first member later)

/-- What stands behind the head of the lower bound has a larger key than the target. -/
theorem Ordered.lt_key_of_mem_tail (ordered : Ordered key members) {member : α}
    (high : member ∈ (lowerBound key target members).tail) : target < key member := by
  have ordered' : Ordered key (lowerBound key target members) :=
    ordered.sublist (List.dropWhile_sublist _)
  have least : ∀ other ∈ lowerBound key target members, target ≤ key other :=
    fun other => ordered.le_key_of_mem_lowerBound
  cases bound : lowerBound key target members with
  | nil =>
      rw [bound] at high
      cases high
  | cons head rest =>
      rw [bound] at high ordered' least
      exact (least head List.mem_cons_self).trans_lt ((List.pairwise_cons.mp ordered').1 member high)

/-- **`find` hits** exactly the member whose key is the target. -/
theorem find_eq_some (ordered : Ordered key members) {member : α} :
    find key target members = some member ↔ member ∈ members ∧ key member = target := by
  have split := below_append_lowerBound key target members
  have behind : ∀ other ∈ (lowerBound key target members).tail, target < key other :=
    fun other => ordered.lt_key_of_mem_tail
  have least : ∀ other ∈ lowerBound key target members, target ≤ key other :=
    fun other => ordered.le_key_of_mem_lowerBound
  rw [find, Option.filter_eq_some_iff]
  constructor
  · rintro ⟨head, high⟩
    have inBound := List.mem_of_head? head
    refine ⟨?_, le_antisymm (not_lt.mp (of_decide_eq_true high)) (least member inBound)⟩
    rw [← split]
    exact List.mem_append_right _ inBound
  · rintro ⟨inSet, same⟩
    rw [← split] at inSet
    rcases List.mem_append.mp inSet with low | high
    · exact absurd same (key_lt_of_mem_below low).ne
    · cases bound : lowerBound key target members with
      | nil =>
          rw [bound] at high
          cases high
      | cons head rest =>
          rw [bound] at high behind
          rcases List.mem_cons.mp high with rfl | later
          · exact ⟨rfl, decide_eq_true (not_lt.mpr same.le)⟩
          · exact absurd same (behind member later).ne'

/-- One member at most has a key. -/
theorem filter_key (ordered : Ordered key members) {isIt : α → Bool}
    (matches' : ∀ member, isIt member = true ↔ key member = target) :
    members.filter isIt = (find key target members).toList := by
  have single : Ordered key (find key target members).toList := by
    cases find key target members with
    | none => exact List.Pairwise.nil
    | some member => exact List.pairwise_singleton _ member
  refine (ordered.sublist List.filter_sublist).ext single fun member => ?_
  rw [List.mem_filter, matches', Option.mem_toList, find_eq_some ordered]

theorem find_isSome (ordered : Ordered key members) :
    (find key target members).isSome ↔ ∃ member ∈ members, key member = target := by
  rw [Option.isSome_iff_exists]
  exact exists_congr fun member => find_eq_some ordered

/-- **`erase`** takes a member out and keeps the order. -/
theorem erase_spec (ordered : Ordered key members) {member : α} (inSet : member ∈ members) :
    ∃ rest, erase key (key member) members = some rest ∧ Ordered key rest ∧
      ∀ other, other ∈ rest ↔ other ∈ members ∧ other ≠ member := by
  have split := below_append_lowerBound key (key member) members
  have found := (find_eq_some ordered).mpr ⟨inSet, rfl⟩
  obtain ⟨tail, bound⟩ : ∃ tail, lowerBound key (key member) members = member :: tail :=
    List.head?_eq_some_iff.mp (Option.filter_eq_some_iff.mp found).1
  rw [bound] at split
  have erased : erase key (key member) members =
      some (below key (key member) members ++ tail) := by
    rw [erase, found, Option.map_some, bound, List.tail_cons]
  generalize below key (key member) members = front at split erased
  subst split
  have fresh := (List.nodup_cons.mp (List.perm_middle.nodup_iff.mp ordered.nodup)).1
  refine ⟨front ++ tail, erased,
    ordered.sublist (List.Sublist.append_left (List.sublist_cons_self _ _) _), fun other => ?_⟩
  rw [List.mem_append, List.mem_append, List.mem_cons]
  constructor
  · intro kept
    refine ⟨kept.imp_right Or.inr, ?_⟩
    rintro rfl
    exact fresh (List.mem_append.mpr kept)
  · rintro ⟨low | rfl | high, distinct⟩
    · exact Or.inl low
    · exact absurd rfl distinct
    · exact Or.inr high

/-- **`insert`** puts a member with a new key in its place. -/
theorem insert_spec (ordered : Ordered key members) {member : α}
    (fresh : ∀ other ∈ members, key other ≠ key member) :
    Ordered key (insert key member members) ∧
      ∀ other, other ∈ insert key member members ↔ other = member ∨ other ∈ members := by
  have split := below_append_lowerBound key (key member) members
  have missed : (find key (key member) members).isSome = false := by
    rw [Bool.eq_false_iff, ne_eq, find_isSome ordered]
    rintro ⟨other, inSet, same⟩
    exact fresh other inSet same
  rw [insert, if_neg (by simp [missed])]
  refine ⟨?_, fun other => ?_⟩
  · refine List.pairwise_append.mpr ⟨ordered.sublist (List.takeWhile_sublist _),
      List.pairwise_cons.mpr ⟨fun other high => ?_, ordered.sublist (List.dropWhile_sublist _)⟩,
      fun first low second high => ?_⟩
    · have inSet : other ∈ members := List.dropWhile_subset _ high
      exact lt_of_le_of_ne (ordered.le_key_of_mem_lowerBound high) (fresh other inSet).symm
    · rcases List.mem_cons.mp high with rfl | later
      · exact key_lt_of_mem_below low
      · exact (key_lt_of_mem_below low).trans_le (ordered.le_key_of_mem_lowerBound later)
  · conv_rhs => rw [← split]
    simp only [List.mem_append, List.mem_cons]
    exact or_left_comm

/-- After an insertion the first member is the old one, or the new one with the least key. -/
theorem head?_insert (key : α → κ) (member : α) (members : List α) :
    (insert key member members).head? = members.head? ∨
      (insert key member members).head? = some member ∧
        ∀ first ∈ members.head?, key member ≤ key first := by
  unfold insert
  split
  · exact Or.inl rfl
  cases members with
  | nil => exact Or.inr ⟨rfl, nofun⟩
  | cons head rest =>
      by_cases smaller : key head < key member
      · left
        rw [below, List.takeWhile_cons_of_pos (by simpa using smaller)]
        rfl
      · right
        rw [below, List.takeWhile_cons_of_neg (by simpa using smaller)]
        refine ⟨rfl, fun first isHead => ?_⟩
        obtain rfl : head = first := Option.some.inj isHead
        exact not_lt.mp smaller

end OrderedSet
