/-
**`ConfigVar::fromString` with listeners that throw.**

`fromString` converts, and `setVal` compares, calls the listeners in the order of `m_cbs` and stores;
one `catch(std::exception&)` stands around all of it. A listener that throws ends the loop, so the
variable keeps its value and those called so far have been told of one that is not stored.

* `notifyLoop_throws`, `notifyLoop_silent`: what the loop over `m_cbs` throws, and whom it has called;
* `setVal_run`: without an exception a call is a run of the steps of `setVal` on its own;
* `atomic_iff`: `fromString` is atomic exactly when the first listener that throws, if one does, throws
  something that is no `std::exception`.
-/
import Wyze.Config.LexicalCast
import Wyze.Config.SetVal

namespace Wyze.ConfigVar

open Labelled

/-- What is thrown: something that `catch(std::exception&)` catches or something else. -/
inductive Thrown where
  | stdException
  | other
  deriving DecidableEq, Repr

/-- `on_change_cb`: what the call `cb(old_val, new_val)` throws. -/
abbrev Listener (α : Type) := α → α → Option Thrown

/-- `ConfigVar`. -/
structure Var (α : Type) where
  /-- `m_val`. -/
  val : α
  /-- `m_cbs`, by key. -/
  cbs : List (Nat × Listener α)
  ordered : (cbs.map Prod.fst).Pairwise (· < ·)

/-- A call of a listener, and whether it threw. -/
structure Notification (α : Type) where
  listener : Nat
  oldVal : α
  newVal : α
  threw : Bool
  deriving DecidableEq, Repr

/-- What a call of `fromString` leaves, whom it has told, and what it returns; `none` where an exception
leaves it. -/
structure Outcome (α : Type) where
  var : Var α
  told : List (Notification α)
  returned : Option Bool

variable {α : Type}

/-- The loop over `m_cbs`. -/
def notifyLoop (oldVal newVal : α) :
    List (Nat × Listener α) → List (Notification α) × Option Thrown
  | [] => ([], none)
  | (key, cb) :: rest =>
    match cb oldVal newVal with
    | some thrown => ([⟨key, oldVal, newVal, true⟩], some thrown)
    | none =>
      let (told, thrown) := notifyLoop oldVal newVal rest
      (⟨key, oldVal, newVal, false⟩ :: told, thrown)

section Source

variable [BEq α]

def Var.setVal (var : Var α) (v : α) : Var α × List (Notification α) × Option Thrown :=
  if v == var.val then (var, [], none)
  else
    match notifyLoop var.val v var.cbs with
    | (told, some thrown) => (var, told, some thrown)
    | (told, none) => ({ var with val := v }, told, none)

/-- `fromString`; `fromStr` is `FromStr()`. -/
def Var.fromString (fromStr : String → Except Thrown α) (var : Var α) (val : String) : Outcome α :=
  match fromStr val with
  | .error .stdException => ⟨var, [], some false⟩
  | .error .other => ⟨var, [], none⟩
  | .ok v =>
    match var.setVal v with
    | (var, told, none) => ⟨var, told, some true⟩
    | (var, told, some .stdException) => ⟨var, told, some false⟩
    | (var, told, some .other) => ⟨var, told, none⟩

end Source

/-! ### The loop -/

-- the equations are made here once, not by the first of the proofs below while the others wait
attribute [local simp] notifyLoop Var.fromString Var.setVal

/-- What the first listener that throws, by key, throws. -/
def firstThrown (oldVal newVal : α) (cbs : List (Nat × Listener α)) : Option Thrown :=
  cbs.findSome? fun entry => entry.2 oldVal newVal

theorem firstThrown_cons (oldVal newVal : α) (key : Nat) (cb : Listener α)
    (rest : List (Nat × Listener α)) :
    firstThrown oldVal newVal ((key, cb) :: rest) =
      (cb oldVal newVal).or (firstThrown oldVal newVal rest) := by
  rw [firstThrown, List.findSome?_cons]
  dsimp only
  cases cb oldVal newVal <;> rfl

/-- **The loop throws what the first listener that throws does.** -/
theorem notifyLoop_throws (oldVal newVal : α) : ∀ cbs : List (Nat × Listener α),
    (notifyLoop oldVal newVal cbs).2 = firstThrown oldVal newVal cbs
  | [] => rfl
  | (key, cb) :: rest => by
    rw [notifyLoop, firstThrown_cons]
    cases cb oldVal newVal with
    | some thrown => rfl
    | none => exact notifyLoop_throws oldVal newVal rest

/-- **When nobody throws, everybody has been told.** -/
theorem notifyLoop_silent {oldVal newVal : α} : ∀ {cbs : List (Nat × Listener α)},
    firstThrown oldVal newVal cbs = none →
    (notifyLoop oldVal newVal cbs).1 = cbs.map fun entry => ⟨entry.1, oldVal, newVal, false⟩
  | [], _ => rfl
  | (key, cb) :: rest, silent => by
    rw [firstThrown_cons] at silent
    rw [notifyLoop]
    cases thrown : cb oldVal newVal with
    | some _ =>
        rw [thrown] at silent
        cases silent
    | none =>
        rw [thrown] at silent
        rw [List.map_cons, ← notifyLoop_silent silent]

/-- The loop calls the listeners in order, each at most once. -/
theorem notifyLoop_prefix (oldVal newVal : α) : ∀ cbs : List (Nat × Listener α),
    (notifyLoop oldVal newVal cbs).1.map Notification.listener <+: cbs.map Prod.fst
  | [] => List.prefix_rfl
  | (key, cb) :: rest => by
    rw [notifyLoop]
    cases cb oldVal newVal with
    | some thrown => exact List.cons_prefix_cons.mpr ⟨rfl, List.nil_prefix⟩
    | none => exact List.cons_prefix_cons.mpr ⟨rfl, notifyLoop_prefix oldVal newVal rest⟩

/-- Where somebody throws, somebody has been called. -/
theorem notifyLoop_called {oldVal newVal : α} {thrown : Thrown} : ∀ {cbs : List (Nat × Listener α)},
    firstThrown oldVal newVal cbs = some thrown → (notifyLoop oldVal newVal cbs).1 ≠ []
  | [], throws => by cases throws
  | (key, cb) :: rest, _ => by
    rw [notifyLoop]
    cases cb oldVal newVal with
    | some _ => exact List.cons_ne_nil _ _
    | none => exact List.cons_ne_nil _ _

/-- Where somebody throws, a call has come to its end unless that is the first listener. -/
theorem notifyLoop_completed {oldVal newVal : α} {thrown : Thrown}
    {cbs : List (Nat × Listener α)} (throws : firstThrown oldVal newVal cbs = some thrown) :
    (∀ call ∈ (notifyLoop oldVal newVal cbs).1, call.threw = true) ↔
      (cbs.head?.bind fun entry => entry.2 oldVal newVal) = some thrown := by
  cases cbs with
  | nil => cases throws
  | cons entry rest =>
      obtain ⟨key, cb⟩ := entry
      rw [firstThrown_cons] at throws
      rw [notifyLoop, List.head?_cons, Option.bind_some]
      dsimp only
      cases here : cb oldVal newVal with
      | some _ =>
          rw [here] at throws
          refine iff_of_true ?_ throws
          intro call member
          rw [List.mem_singleton.mp member]
      | none =>
          refine iff_of_false (fun all => ?_) (by rintro ⟨⟩)
          exact Bool.false_ne_true (all _ List.mem_cons_self)

/-! ### `setVal` and `fromString` -/

section Calls

variable [BEq α]

/-- **What `setVal` does.** -/
theorem setVal_cases (var : Var α) (v : α) :
    ((v == var.val) = true ∧ var.setVal v = (var, [], none)) ∨
    ((v == var.val) = false ∧ firstThrown var.val v var.cbs = none ∧
      var.setVal v = ({ var with val := v },
        var.cbs.map fun entry => ⟨entry.1, var.val, v, false⟩, none)) ∨
    ((v == var.val) = false ∧ ∃ thrown, firstThrown var.val v var.cbs = some thrown ∧
      var.setVal v = (var, (notifyLoop var.val v var.cbs).1, some thrown)) := by
  rw [Var.setVal]
  have throws := notifyLoop_throws var.val v var.cbs
  cases same : v == var.val with
  | true => exact Or.inl ⟨rfl, if_pos rfl⟩
  | false =>
      rw [if_neg Bool.false_ne_true]
      cases first : firstThrown var.val v var.cbs with
      | none =>
          refine Or.inr (Or.inl ⟨rfl, rfl, ?_⟩)
          rw [first] at throws
          rw [← notifyLoop_silent first]
          generalize notifyLoop var.val v var.cbs = loop at throws ⊢
          obtain ⟨told, thrown⟩ := loop
          cases throws
          rfl
      | some thrown =>
          refine Or.inr (Or.inr ⟨rfl, thrown, rfl, ?_⟩)
          rw [first] at throws
          generalize notifyLoop var.val v var.cbs = loop at throws ⊢
          obtain ⟨told, thrown'⟩ := loop
          cases throws
          rfl

/-- Nobody is told twice, and only registered listeners are. -/
theorem setVal_told (var : Var α) (v : α) :
    ((var.setVal v).2.1.map Notification.listener).Nodup ∧
      (var.setVal v).2.1.map Notification.listener <+: var.cbs.map Prod.fst := by
  have distinct : (var.cbs.map Prod.fst).Nodup := var.ordered.imp Nat.ne_of_lt
  have inOrder : (var.setVal v).2.1.map Notification.listener <+: var.cbs.map Prod.fst := by
    obtain ⟨_, done⟩ | ⟨_, silent, done⟩ | ⟨_, thrown, _, done⟩ := setVal_cases var v
    · rw [done]
      exact List.nil_prefix
    · rw [done, ← notifyLoop_silent silent]
      exact notifyLoop_prefix _ _ _
    · rw [done]
      exact notifyLoop_prefix _ _ _
  exact ⟨distinct.sublist inOrder.sublist, inOrder⟩

/-- **`fromString` is atomic**, where `counts` says which calls count as having told a listener. When it
returns true the converted value is in the variable and every listener was told of it, or it was equal
to what was there; when it returns false, so that nothing is stored, the variable is as it was and
nobody was told of anything. -/
structure Atomic (counts : Notification α → Prop) (fromStr : String → Except Thrown α)
    (var : Var α) (val : String) : Prop where
  stored : (var.fromString fromStr val).returned = some true → ∃ v, fromStr val = .ok v ∧
    ((v == var.val) = true ∧ (var.fromString fromStr val).var = var ∨
      (var.fromString fromStr val).var = { var with val := v } ∧
        ∀ entry ∈ var.cbs, ∃ call ∈ (var.fromString fromStr val).told,
          call.listener = entry.1 ∧ call.newVal = v ∧ counts call)
  failed : (var.fromString fromStr val).returned = some false →
    (var.fromString fromStr val).var = var ∧
      ∀ call ∈ (var.fromString fromStr val).told, ¬ counts call

variable {counts : Notification α → Prop} {fromStr : String → Except Thrown α} {var : Var α}
  {val : String}

/-- A conversion that throws changes nothing. -/
theorem atomic_of_error {thrown : Thrown} (converts : fromStr val = .error thrown) :
    Atomic counts fromStr var val := by
  constructor
  · intro returned
    rw [Var.fromString, converts] at returned
    cases thrown <;> cases returned
  · intro returned
    rw [Var.fromString, converts] at returned ⊢
    cases thrown with
    | stdException => exact ⟨rfl, fun _ member => absurd member List.not_mem_nil⟩
    | other => cases returned

/-- An equal value ends the call. -/
theorem atomic_of_equal {v : α} (converts : fromStr val = .ok v) (same : (v == var.val) = true) :
    Atomic counts fromStr var val := by
  have done : var.fromString fromStr val = ⟨var, [], some true⟩ := by
    rw [Var.fromString, converts]
    dsimp only
    rw [Var.setVal, if_pos same]
  constructor
  · intro _
    rw [done]
    exact ⟨v, converts, Or.inl ⟨same, rfl⟩⟩
  · intro returned
    rw [done] at returned
    cases returned

/-- Without an exception everybody is told of the value that is stored. -/
theorem atomic_of_silent {v : α} (converts : fromStr val = .ok v) (other : (v == var.val) = false)
    (silent : firstThrown var.val v var.cbs = none)
    (counted : ∀ entry ∈ var.cbs, counts ⟨entry.1, var.val, v, false⟩) :
    Atomic counts fromStr var val := by
  have done : var.fromString fromStr val = ⟨{ var with val := v },
      var.cbs.map fun entry => ⟨entry.1, var.val, v, false⟩, some true⟩ := by
    obtain ⟨same, _⟩ | ⟨_, _, done⟩ | ⟨_, thrown, throws, _⟩ := setVal_cases var v
    · exact absurd (same.symm.trans other) (by decide)
    · rw [Var.fromString, converts]
      dsimp only
      rw [done]
    · rw [silent] at throws
      cases throws
  constructor
  · intro _
    rw [done]
    exact ⟨v, converts, Or.inr ⟨rfl, fun entry member =>
      ⟨_, List.mem_map_of_mem member, rfl, rfl, counted entry member⟩⟩⟩
  · intro returned
    rw [done] at returned
    cases returned

/-- **An exception of a listener** leaves those told that were called before, and the one itself. -/
theorem atomic_of_throws {v : α} {thrown : Thrown} (converts : fromStr val = .ok v)
    (other : (v == var.val) = false) (throws : firstThrown var.val v var.cbs = some thrown) :
    Atomic counts fromStr var val ↔
      (thrown = .stdException → ∀ call ∈ (notifyLoop var.val v var.cbs).1, ¬ counts call) := by
  have done : var.fromString fromStr val = ⟨var, (notifyLoop var.val v var.cbs).1,
      if thrown = .stdException then some false else none⟩ := by
    obtain ⟨same, _⟩ | ⟨_, silent, _⟩ | ⟨_, thrown', throws', done⟩ := setVal_cases var v
    · exact absurd (same.symm.trans other) (by decide)
    · rw [throws] at silent
      cases silent
    · obtain rfl : thrown = thrown' := Option.some.inj (throws.symm.trans throws')
      rw [Var.fromString, converts]
      dsimp only
      rw [done]
      cases thrown <;> rfl
  constructor
  · rintro ⟨_, failed⟩ caught
    rw [done, if_pos caught] at failed
    exact (failed rfl).2
  · intro silent
    constructor
    · intro returned
      rw [done] at returned
      dsimp only at returned
      split at returned <;> cases returned
    · intro returned
      rw [done] at returned ⊢
      dsimp only at returned ⊢
      split at returned
      · rename_i caught
        exact ⟨rfl, silent caught⟩
      · cases returned

/-- **`fromString` is atomic exactly when the first listener that throws does not throw a
`std::exception`**, if there is one; where the conversion throws or the value is equal, no listener is
called. For every conversion, every variable with its listeners and every text. If a listener whose own
call throws does not count as told, the first listener of all may throw, too. -/
theorem atomic_iff (fromStr : String → Except Thrown α) (var : Var α) (val : String) :
    (Atomic (fun _ => True) fromStr var val ↔
      ∀ v, fromStr val = .ok v → (v == var.val) = false →
        firstThrown var.val v var.cbs ≠ some .stdException) ∧
    (Atomic (fun call => call.threw = false) fromStr var val ↔
      ∀ v, fromStr val = .ok v → (v == var.val) = false →
        firstThrown var.val v var.cbs = some .stdException →
        (var.cbs.head?.bind fun entry => entry.2 var.val v) = some .stdException) := by
  cases converts : fromStr val with
  | error thrown =>
      exact ⟨iff_of_true (atomic_of_error converts) (by rintro _ ⟨⟩),
        iff_of_true (atomic_of_error converts) (by rintro _ ⟨⟩)⟩
  | ok v =>
      simp only [Except.ok.injEq, forall_eq']
      cases other : v == var.val with
      | true =>
          exact ⟨iff_of_true (atomic_of_equal converts other) (by rintro ⟨⟩),
            iff_of_true (atomic_of_equal converts other) (by rintro ⟨⟩)⟩
      | false =>
          cases first : firstThrown var.val v var.cbs with
          | none =>
              exact ⟨iff_of_true (atomic_of_silent converts other first fun _ _ => trivial)
                  (fun _ => by rintro ⟨⟩),
                iff_of_true (atomic_of_silent converts other first fun _ _ => rfl)
                  (fun _ => by rintro ⟨⟩)⟩
          | some thrown =>
              rw [atomic_of_throws converts other first, atomic_of_throws converts other first]
              cases thrown with
              | other => exact ⟨iff_of_true (by rintro ⟨⟩) (fun _ => by rintro ⟨⟩),
                  iff_of_true (by rintro ⟨⟩) (fun _ => by rintro ⟨⟩)⟩
              | stdException =>
                  refine ⟨iff_of_false (fun silent => ?_) (fun never => never rfl rfl), ?_⟩
                  · obtain ⟨call, member⟩ := List.exists_mem_of_ne_nil _ (notifyLoop_called first)
                    exact silent rfl call member trivial
                  · simp only [Bool.not_eq_false, forall_const]
                    exact notifyLoop_completed first

/-- A variable with a listener that takes every value and one that takes none. -/
def refusing : Var Nat where
  val := 1
  cbs := [(1, fun _ _ => none), (2, fun _ _ => some .stdException)]
  ordered := by decide

/-- **The second listener throws**: the first one has been told of 2, the variable is 1. -/
theorem atomic_fails :
    let fromStr := fun text => if text = "2" then .ok 2 else .error .stdException
    (refusing.fromString fromStr "2").returned = some false ∧
      (refusing.fromString fromStr "2").var.val = 1 ∧
      (refusing.fromString fromStr "2").told = [⟨1, 1, 2, false⟩, ⟨2, 1, 2, true⟩] ∧
      ¬ Atomic (fun call => call.threw = false) fromStr refusing "2" ∧
      ¬ Atomic (fun _ => True) fromStr refusing "2" := by
  refine ⟨by decide, by decide, by decide, fun atomic => ?_, fun atomic => ?_⟩
  · exact (atomic.failed (by decide)).2 ⟨1, 1, 2, false⟩ (by decide) rfl
  · exact (atomic.failed (by decide)).2 ⟨1, 1, 2, false⟩ (by decide) trivial

end Calls

/-! ### Against the other models of these functions -/

section Models

variable [DecidableEq α]

/-- Where no listener throws this is the `fromString` of the casts, whose exceptions are
`std::exception`s. -/
theorem fromString_cast (cast : Config.LexicalCast α) (var : Var α)
    (silent : ∀ v, firstThrown var.val v var.cbs = none) (val : String) :
    let outcome := var.fromString
      (fun text => (cast.fromString text).elim (.error .stdException) .ok) val
    outcome.var.val = (Config.fromString cast var.val val).1 ∧
      outcome.returned = some (Config.fromString cast var.val val).2 := by
  dsimp only
  rw [Var.fromString, Config.fromString]
  cases cast.fromString val with
  | none => exact ⟨rfl, rfl⟩
  | some v =>
      dsimp only [Option.elim_some]
      rw [Config.setVal]
      obtain ⟨same, done⟩ | ⟨other, _, done⟩ | ⟨_, thrown, throws, _⟩ := setVal_cases var v
      · rw [done, if_pos (beq_iff_eq.mp same)]
        exact ⟨rfl, rfl⟩
      · rw [done, if_neg (beq_eq_false_iff_ne.mp other)]
        exact ⟨rfl, rfl⟩
      · rw [silent v] at throws
        cases throws

/-- One call on its own tells the listeners that are left. -/
theorem notify_run (listeners : List Nat) (val v : α) : ∀ rest : List Nat,
    trace (step listeners) ⟨val, [⟨v, .notifying rest⟩]⟩ (List.replicate rest.length (.notify 0)) =
      some (⟨val, [⟨v, .notifying []⟩]⟩, rest.map fun listener => .notified listener val v)
  | [] => rfl
  | listener :: rest =>
    trace_cons_eq_some.mpr ⟨⟨val, [⟨v, .notifying rest⟩]⟩, .notified listener val v, _, rfl,
      notify_run listeners val v rest, rfl⟩

/-- **A call that no listener interrupts** is a run of the steps of `setVal` on its own: the variable it
leaves is that of the run, and the run tells whom the call tells. -/
theorem setVal_run (var : Var α) {v : α} (other : v ≠ var.val)
    (silent : firstThrown var.val v var.cbs = none) :
    trace (step (var.cbs.map Prod.fst)) ⟨var.val, []⟩
        (.enter v :: (List.replicate var.cbs.length (.notify 0) ++ [.leave 0, .store 0])) =
      some (⟨(var.setVal v).1.val, []⟩, .silent ::
        ((var.setVal v).2.1.map (fun call => .notified call.listener call.oldVal call.newVal) ++
          [.silent, .silent])) := by
  obtain ⟨same, _⟩ | ⟨_, _, done⟩ | ⟨_, thrown, throws, _⟩ := setVal_cases var v
  · exact absurd (beq_iff_eq.mp same) other
  · rw [done, List.map_map]
    have telling := notify_run (var.cbs.map Prod.fst) var.val v (var.cbs.map Prod.fst)
    rw [List.length_map, List.map_map] at telling
    refine trace_cons_eq_some.mpr ⟨⟨var.val, [⟨v, .notifying (var.cbs.map Prod.fst)⟩]⟩, .silent, _,
      if_neg other, ?_, rfl⟩
    exact trace_append_eq_some.mpr ⟨_, _, [.silent, .silent], telling, rfl, rfl⟩
  · rw [silent] at throws
    cases throws

end Models

end Wyze.ConfigVar
