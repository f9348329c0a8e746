/-
**Concurrent `ConfigVar::setVal` and its listeners.**

`setVal` compares and notifies under the shared lock and stores under the exclusive one, which it takes
after it has given up the first. Calls may overlap between the two, so a listener can be told of two
changes from the same old value, and the value stored last need not be the one told last.

`histories_consistent_iff`: when all calls have finished, every listener has seen a consistent history
that ends in the stored value exactly when no call began to notify while another one had not stored.
-/
import Mathlib.Data.List.Nodup
import Wyze.Lib.Run

namespace Wyze.ConfigVar

open Labelled

variable {α : Type}

/-- Where a call of `setVal` is, behind its comparison. -/
inductive Phase where
  /-- In the loop over `m_cbs`, under the shared lock: the listeners not called yet. -/
  | notifying (rest : List Nat)
  /-- Behind the shared lock, in front of the exclusive one. -/
  | storing
  deriving DecidableEq, Repr

/-- A call of `setVal`: its argument and where it is. -/
structure Call (α : Type) where
  value : α
  phase : Phase
  deriving DecidableEq, Repr

/-- The variable, and the calls of `setVal` that found another value in it. -/
structure State (α : Type) where
  /-- `m_val`. -/
  val : α
  calls : List (Call α)
  deriving DecidableEq, Repr

/-- What a step shows: the call `cb(old_val, new_val)` of a listener. -/
inductive Output (α : Type) where
  | notified (listener : Nat) (oldVal newVal : α)
  | silent
  deriving DecidableEq, Repr

inductive Label (α : Type) where
  /-- A call takes the shared lock and compares. -/
  | enter (value : α)
  /-- It calls its next listener. -/
  | notify (call : Nat)
  /-- The end of the loop: it gives up the shared lock. -/
  | leave (call : Nat)
  /-- It takes the exclusive lock, stores and gives it up. -/
  | store (call : Nat)
  deriving DecidableEq, Repr

/-- The call holds the shared lock. -/
def Call.Reading (call : Call α) : Bool :=
  match call.phase with
  | .notifying _ => true
  | .storing => false

variable [DecidableEq α]

/-- One step of some call. `listeners` are the keys of `m_cbs`, in order. -/
def step (listeners : List Nat) (state : State α) : Label α → Option (State α × Output α)
  | .enter value =>
    if value = state.val then some (state, .silent)
    else some ({ state with calls := state.calls ++ [⟨value, .notifying listeners⟩] }, .silent)
  | .notify index =>
    match state.calls[index]? with
    | some ⟨value, .notifying (listener :: rest)⟩ =>
      some ({ state with calls := state.calls.set index ⟨value, .notifying rest⟩ },
        .notified listener state.val value)
    | _ => none
  | .leave index =>
    match state.calls[index]? with
    | some ⟨value, .notifying []⟩ =>
      some ({ state with calls := state.calls.set index ⟨value, .storing⟩ }, .silent)
    | _ => none
  | .store index =>
    match state.calls[index]? with
    | some ⟨value, .storing⟩ =>
      if state.calls.any Call.Reading then none
      else some (⟨value, state.calls.eraseIdx index⟩, .silent)
    | _ => none

/-! ### Histories -/

section Histories

omit [DecidableEq α]

/-- What an output tells one listener. -/
def Output.toldTo (listener : Nat) : Output α → Option (α × α)
  | .notified other oldVal newVal => if other = listener then some (oldVal, newVal) else none
  | .silent => none

/-- What one listener was called with, in order. -/
def history (listener : Nat) (outputs : List (Output α)) : List (α × α) :=
  outputs.filterMap (Output.toldTo listener)

/-- The old value of each notification is the new value of the one before, the first one the initial
value. -/
def Consistent : α → List (α × α) → Prop
  | _, [] => True
  | start, (oldVal, newVal) :: rest => oldVal = start ∧ Consistent newVal rest

/-- The last new value, the initial value when there is none. -/
def told : α → List (α × α) → α
  | start, [] => start
  | _, (_, newVal) :: rest => told newVal rest

theorem told_append (start : α) (history : List (α × α)) (oldVal newVal : α) :
    told start (history ++ [(oldVal, newVal)]) = newVal := by
  induction history generalizing start with
  | nil => rfl
  | cons notification history ih => exact ih notification.2

theorem consistent_append (start : α) (history : List (α × α)) (oldVal newVal : α) :
    Consistent start (history ++ [(oldVal, newVal)]) ↔
      Consistent start history ∧ oldVal = told start history := by
  induction history generalizing start with
  | nil => exact ⟨fun same => ⟨trivial, same.1⟩, fun same => ⟨same.2, trivial⟩⟩
  | cons notification history ih =>
    show _ ∧ Consistent notification.2 (history ++ _) ↔ (_ ∧ _) ∧ _
    rw [ih, and_assoc]
    rfl

/-- A step that calls nobody leaves the histories. -/
theorem history_quiet (listener : Nat) (outputs : List (Output α)) :
    history listener (outputs ++ [.silent]) = history listener outputs := by
  unfold history
  rw [List.filterMap_append]
  exact List.append_nil _

theorem history_self (listener : Nat) (outputs : List (Output α)) (oldVal newVal : α) :
    history listener (outputs ++ [.notified listener oldVal newVal]) =
      history listener outputs ++ [(oldVal, newVal)] := by
  unfold history
  rw [List.filterMap_append]
  simp only [List.filterMap_cons, Output.toldTo, if_true, List.filterMap_nil]

theorem history_other {listener other : Nat} (different : other ≠ listener)
    (outputs : List (Output α)) (oldVal newVal : α) :
    history listener (outputs ++ [.notified other oldVal newVal]) = history listener outputs := by
  unfold history
  rw [List.filterMap_append]
  simp only [List.filterMap_cons, Output.toldTo, if_neg different, List.filterMap_nil,
    List.append_nil]

/-! ### Calls that still have to tell a listener -/

/-- The call has still to call this listener. -/
def Call.Awaits (listener : Nat) (call : Call α) : Bool :=
  match call.phase with
  | .notifying rest => rest.contains listener
  | .storing => false

theorem awaits_iff {listener : Nat} {value : α} {rest : List Nat} :
    (⟨value, .notifying rest⟩ : Call α).Awaits listener = true ↔ listener ∈ rest :=
  List.contains_iff_mem

theorem awaits_cons (listener : Nat) (value : α) (rest : List Nat) :
    (⟨value, .notifying (listener :: rest)⟩ : Call α).Awaits listener = true :=
  awaits_iff.mpr List.mem_cons_self

theorem awaits_cons_other {listener other : Nat} (different : other ≠ listener) (value : α)
    (rest : List Nat) : (⟨value, .notifying (other :: rest)⟩ : Call α).Awaits listener =
      (⟨value, .notifying rest⟩ : Call α).Awaits listener := by
  rw [Bool.eq_iff_iff, awaits_iff, awaits_iff, List.mem_cons]
  exact or_iff_right (Ne.symm different)

theorem reading_of_awaits {listener : Nat} {call : Call α} (awaits : call.Awaits listener = true) :
    call.Reading = true := by
  obtain ⟨value, phase⟩ := call
  cases phase with
  | notifying rest => rfl
  | storing => cases awaits

def waiting (listener : Nat) (calls : List (Call α)) : Nat := calls.countP (Call.Awaits listener)

theorem waiting_set (listener : Nat) {calls : List (Call α)} {index : Nat} {before : Call α}
    (found : calls[index]? = some before) (after : Call α) :
    waiting listener (calls.set index after) + (if before.Awaits listener then 1 else 0) =
      waiting listener calls + if after.Awaits listener then 1 else 0 := by
  obtain ⟨inside, here⟩ := List.getElem?_eq_some_iff.mp found
  have counted := @List.countP_set _ (Call.Awaits listener) calls index after inside
  unfold waiting
  rw [counted, here]
  by_cases awaits : before.Awaits listener
  · have positive : 1 ≤ calls.countP (Call.Awaits listener) :=
      List.countP_pos_iff.mpr ⟨before, here ▸ List.getElem_mem inside, awaits⟩
    rw [if_pos awaits]
    omega
  · rw [if_neg awaits]
    omega

end Histories

/-- What holds of the calls in every run: a loop goes over distinct listeners, and while it holds the
shared lock the variable has another value than the one it will store. -/
structure Sound (state : State α) : Prop where
  distinct : ∀ call ∈ state.calls, ∀ rest, call.phase = .notifying rest → rest.Nodup
  differs : ∀ call ∈ state.calls, call.Reading → call.value ≠ state.val

/-- **A listener is going to be told of a change from a value it does not have**: two calls have still
to tell it, or one has and the variable is not what it was told. -/
def Doomed (initial : α) (listener : Nat) (state : State α) (outputs : List (Output α)) : Prop :=
  ¬ Consistent initial (history listener outputs) ∨
    2 ≤ waiting listener state.calls ∨
    (1 ≤ waiting listener state.calls ∧ told initial (history listener outputs) ≠ state.val)

variable {listeners : List Nat} {state : State α} {next : State α × Output α} {outputs : List (Output α)}

/-- **What a step can do.** -/
theorem step_cases {label : Label α} (stepped : step listeners state label = some next) :
    (∃ value, label = .enter value ∧ value = state.val ∧ next = (state, .silent)) ∨
    (∃ value, label = .enter value ∧ value ≠ state.val ∧
      next = (⟨state.val, state.calls ++ [⟨value, .notifying listeners⟩]⟩, .silent)) ∨
    (∃ index value listener rest,
      label = .notify index ∧ state.calls[index]? = some ⟨value, .notifying (listener :: rest)⟩ ∧
      next = (⟨state.val, state.calls.set index ⟨value, .notifying rest⟩⟩,
        .notified listener state.val value)) ∨
    (∃ index value, label = .leave index ∧ state.calls[index]? = some ⟨value, .notifying []⟩ ∧
      next = (⟨state.val, state.calls.set index ⟨value, .storing⟩⟩, .silent)) ∨
    (∃ index value, label = .store index ∧ state.calls[index]? = some ⟨value, .storing⟩ ∧
      state.calls.any Call.Reading = false ∧
      next = (⟨value, state.calls.eraseIdx index⟩, .silent)) := by
  cases label with
  | enter value =>
    rw [step] at stepped
    split at stepped
    · cases stepped
      exact Or.inl ⟨value, rfl, ‹_›, rfl⟩
    · cases stepped
      exact Or.inr (Or.inl ⟨value, rfl, ‹_›, rfl⟩)
  | notify index =>
    rw [step] at stepped
    split at stepped
    · cases stepped
      exact Or.inr (Or.inr (Or.inl ⟨index, _, _, _, rfl, ‹_›, rfl⟩))
    · cases stepped
  | leave index =>
    rw [step] at stepped
    split at stepped
    · cases stepped
      exact Or.inr (Or.inr (Or.inr (Or.inl ⟨index, _, rfl, ‹_›, rfl⟩)))
    · cases stepped
  | store index =>
    rw [step] at stepped
    split at stepped
    · split at stepped
      · cases stepped
      · cases stepped
        exact Or.inr (Or.inr (Or.inr (Or.inr
          ⟨index, _, rfl, ‹_›, Bool.eq_false_iff.mpr ‹_›, rfl⟩)))
    · cases stepped

/-- What every step keeps of the calls. -/
theorem step_sound (keys : listeners.Nodup) {label : Label α} (sound : Sound state)
    (stepped : step listeners state label = some next) : Sound next.1 := by
  obtain ⟨value, -, -, rfl⟩ | ⟨value, -, other, rfl⟩ | ⟨index, value, listener, rest, -, found, rfl⟩ |
    ⟨index, value, -, found, rfl⟩ | ⟨index, value, -, found, alone, rfl⟩ := step_cases stepped
  · exact sound
  · constructor
    · intro call mem rest phase
      rw [List.mem_append, List.mem_singleton] at mem
      rcases mem with mem | rfl
      · exact sound.distinct call mem rest phase
      · cases phase
        exact keys
    · intro call mem reading
      rw [List.mem_append, List.mem_singleton] at mem
      rcases mem with mem | rfl
      · exact sound.differs call mem reading
      · exact other
  · have mem := List.mem_of_getElem? found
    constructor
    · intro call callMem rest' phase
      rcases List.mem_or_eq_of_mem_set callMem with old | rfl
      · exact sound.distinct call old rest' phase
      · cases phase
        exact (sound.distinct _ mem _ rfl).of_cons
    · intro call callMem reading
      rcases List.mem_or_eq_of_mem_set callMem with old | rfl
      · exact sound.differs call old reading
      · exact sound.differs ⟨value, .notifying (listener :: rest)⟩ mem rfl
  · constructor
    · intro call callMem rest' phase
      rcases List.mem_or_eq_of_mem_set callMem with old | rfl
      · exact sound.distinct call old rest' phase
      · cases phase
    · intro call callMem reading
      rcases List.mem_or_eq_of_mem_set callMem with old | rfl
      · exact sound.differs call old reading
      · cases reading
  · constructor
    · intro call callMem rest' phase
      exact sound.distinct call (List.mem_of_mem_eraseIdx callMem) rest' phase
    · intro call callMem reading
      have quiet := List.any_eq_false.mp alone call (List.mem_of_mem_eraseIdx callMem)
      exact absurd reading quiet

/-- **Once doomed, always doomed**: the variable cannot change before the call has told the listener,
and whoever tells it first gives it an old value that it was not told. -/
theorem step_doomed {initial : α} {listener : Nat} {label : Label α} (sound : Sound state)
    (doomed : Doomed initial listener state outputs)
    (stepped : step listeners state label = some next) :
    Doomed initial listener next.1 (outputs ++ [next.2]) := by
  obtain ⟨value, -, -, rfl⟩ | ⟨value, -, other, rfl⟩ | ⟨index, value, called, rest, -, found, rfl⟩ |
    ⟨index, value, -, found, rfl⟩ | ⟨index, value, -, found, alone, rfl⟩ := step_cases stepped
  · unfold Doomed
    rw [history_quiet]
    exact doomed
  · unfold Doomed
    rw [history_quiet]
    have more : waiting listener state.calls ≤
        waiting listener (state.calls ++ [⟨value, .notifying listeners⟩]) := by
      unfold waiting
      rw [List.countP_append]
      exact Nat.le_add_right _ _
    exact doomed.imp_right (Or.imp (Nat.le_trans · more)
      (And.imp_left (Nat.le_trans · more)))
  · have counted := waiting_set listener found (⟨value, .notifying rest⟩ : Call α)
    have mem := List.mem_of_getElem? found
    by_cases same : called = listener
    · subst same
      have notRest := (List.nodup_cons.mp (sound.distinct _ mem _ rfl)).1
      have different : value ≠ state.val := sound.differs _ mem rfl
      rw [awaits_cons, if_pos rfl, if_neg (by rwa [awaits_iff])] at counted
      unfold Doomed at doomed ⊢
      rw [history_self, consistent_append, told_append]
      dsimp only
      by_cases fits : Consistent initial (history called outputs) ∧
          state.val = told initial (history called outputs)
      · refine Or.inr (Or.inr ⟨?_, different⟩)
        rcases doomed with broken | two | ⟨_, stale⟩
        · exact absurd fits.1 broken
        · omega
        · exact absurd fits.2.symm stale
      · exact Or.inl fits
    · unfold Doomed
      rw [history_other same]
      rw [awaits_cons_other same] at counted
      rw [show waiting listener (state.calls.set index ⟨value, .notifying rest⟩) =
        waiting listener state.calls by omega]
      exact doomed
  · have counted := waiting_set listener found (⟨value, .storing⟩ : Call α)
    unfold Doomed
    rw [history_quiet]
    rw [show waiting listener (state.calls.set index ⟨value, .storing⟩) =
      waiting listener state.calls from counted]
    exact doomed
  · -- nobody holds the shared lock, so nobody has still to tell the listener
    have none : waiting listener state.calls = 0 := by
      unfold waiting
      rw [List.countP_eq_zero]
      intro call mem awaits
      exact List.any_eq_false.mp alone call mem (reading_of_awaits awaits)
    unfold Doomed at doomed ⊢
    rw [history_quiet]
    rcases doomed with broken | two | ⟨one, _⟩
    · exact Or.inl broken
    · omega
    · omega

/-! ### Calls that do not overlap -/

/-- A call that finds another value in the variable does so while no other such call is in progress. -/
def Alone (state : State α) : Label α → Prop
  | .enter value => value = state.val ∨ state.calls = []
  | _ => True

/-- **The invariant of calls one at a time**: a listener was told the value of the variable, or the one
that the call in progress is going to store. -/
structure Orderly (initial : α) (listeners : List Nat) (state : State α)
    (outputs : List (Output α)) : Prop where
  sound : Sound state
  consistent : ∀ listener ∈ listeners, Consistent initial (history listener outputs)
  single : (state.calls = [] ∧ ∀ listener ∈ listeners,
      told initial (history listener outputs) = state.val) ∨
    ∃ call, state.calls = [call] ∧ call.value ≠ state.val ∧ ∀ listener ∈ listeners,
      told initial (history listener outputs) =
        if call.Awaits listener then state.val else call.value

omit [DecidableEq α] in
/-- The only call of an orderly state. -/
theorem Orderly.only {initial : α} (orderly : Orderly initial listeners state outputs) {index : Nat}
    {call : Call α} (found : state.calls[index]? = some call) :
    index = 0 ∧ state.calls = [call] ∧ call.value ≠ state.val ∧ ∀ listener ∈ listeners,
      told initial (history listener outputs) =
        if call.Awaits listener then state.val else call.value := by
  rcases orderly.single with ⟨none, _⟩ | ⟨other, one, rest⟩
  · rw [none] at found
    cases found
  · rw [one] at found
    cases index with
    | zero =>
      cases found
      exact ⟨rfl, one, rest⟩
    | succ index => cases found

theorem step_orderly (keys : listeners.Nodup) {initial : α} {label : Label α}
    (orderly : Orderly initial listeners state outputs) (alone : Alone state label)
    (stepped : step listeners state label = some next) :
    Orderly initial listeners next.1 (outputs ++ [next.2]) := by
  have sound := step_sound keys orderly.sound stepped
  obtain ⟨value, -, -, rfl⟩ | ⟨value, rfl, other, rfl⟩ | ⟨index, value, called, rest, -, found, rfl⟩ |
    ⟨index, value, -, found, rfl⟩ | ⟨index, value, -, found, -, rfl⟩ := step_cases stepped
  · refine ⟨sound, ?_, ?_⟩
    · simpa only [history_quiet] using orderly.consistent
    · simpa only [history_quiet] using orderly.single
  · have none : state.calls = [] := alone.resolve_left other
    refine ⟨sound, ?_, Or.inr ⟨⟨value, .notifying listeners⟩, ?_, other, ?_⟩⟩
    · simpa only [history_quiet] using orderly.consistent
    · show state.calls ++ _ = _
      rw [none, List.nil_append]
    · intro listener mem
      rw [history_quiet, if_pos (awaits_iff.mpr mem)]
      rcases orderly.single with ⟨_, same⟩ | ⟨call, one, _⟩
      · exact same listener mem
      · rw [none] at one
        cases one
  · obtain ⟨rfl, one, different, telling⟩ := orderly.only found
    have notRest := (List.nodup_cons.mp
      (orderly.sound.distinct _ (List.mem_of_getElem? found) _ rfl)).1
    refine ⟨sound, ?_, Or.inr ⟨⟨value, .notifying rest⟩, ?_, different, ?_⟩⟩
    · intro listener mem
      by_cases same : called = listener
      · subst same
        have before := telling called mem
        rw [awaits_cons, if_pos rfl] at before
        rw [history_self, consistent_append]
        exact ⟨orderly.consistent called mem, before.symm⟩
      · rw [history_other same]
        exact orderly.consistent listener mem
    · show state.calls.set 0 _ = _
      rw [one]
      rfl
    · intro listener mem
      by_cases same : called = listener
      · subst same
        rw [history_self, told_append, if_neg (by rwa [awaits_iff])]
      · rw [history_other same, ← awaits_cons_other same]
        exact telling listener mem
  · obtain ⟨rfl, one, different, telling⟩ := orderly.only found
    refine ⟨sound, ?_, Or.inr ⟨⟨value, .storing⟩, ?_, different, ?_⟩⟩
    · simpa only [history_quiet] using orderly.consistent
    · show state.calls.set 0 _ = _
      rw [one]
      rfl
    · intro listener mem
      rw [history_quiet]
      exact telling listener mem
  · obtain ⟨rfl, one, -, telling⟩ := orderly.only found
    refine ⟨sound, ?_, Or.inl ⟨?_, ?_⟩⟩
    · simpa only [history_quiet] using orderly.consistent
    · show state.calls.eraseIdx 0 = []
      rw [one]
      rfl
    · intro listener mem
      rw [history_quiet]
      exact telling listener mem

/-- **Two calls that overlap** doom every listener: the one behind will tell it of a change from the
value that the one in front has told it is gone, or is going to. -/
theorem overlap_doomed {initial : α} {label : Label α}
    (orderly : Orderly initial listeners state outputs) (overlap : ¬ Alone state label)
    (stepped : step listeners state label = some next) {listener : Nat} (mem : listener ∈ listeners) :
    Doomed initial listener next.1 (outputs ++ [next.2]) := by
  obtain ⟨value, rfl, same, rfl⟩ | ⟨value, rfl, other, rfl⟩ | ⟨_, _, _, _, rfl, _⟩ | ⟨_, _, rfl, _⟩ |
    ⟨_, _, rfl, _⟩ := step_cases stepped
  · exact absurd (Or.inl same) overlap
  · rcases orderly.single with ⟨none, _⟩ | ⟨call, one, different, telling⟩
    · exact absurd (Or.inr none) overlap
    have behind : waiting listener (state.calls ++ [⟨value, .notifying listeners⟩]) =
        (if call.Awaits listener then 1 else 0) + 1 := by
      unfold waiting
      rw [one, List.countP_append, List.countP_singleton, List.countP_singleton,
        if_pos (awaits_iff.mpr mem)]
    unfold Doomed
    rw [history_quiet, telling listener mem]
    dsimp only
    rw [behind]
    by_cases awaits : call.Awaits listener
    · rw [if_pos awaits]
      exact Or.inr (Or.inl (Nat.le_refl 2))
    · rw [if_neg awaits, if_neg awaits]
      exact Or.inr (Or.inr ⟨Nat.le_refl 1, different⟩)
  · exact absurd trivial overlap
  · exact absurd trivial overlap
  · exact absurd trivial overlap

instance aloneDecidable (state : State α) : (label : Label α) → Decidable (Alone state label)
  | .enter value => inferInstanceAs (Decidable (value = state.val ∨ state.calls = []))
  | .notify _ | .leave _ | .store _ => .isTrue trivial

/-- **The histories of the listeners.** While calls do not overlap, every listener sees a consistent
history; and when all calls have finished, the histories are consistent and end in the stored value
exactly when no two calls overlapped. -/
theorem histories_consistent_iff (initial : α) {listeners : List Nat} (keys : listeners.Nodup)
    {labels : List (Label α)} {final : State α} {outputs : List (Output α)}
    (executed : trace (step listeners) ⟨initial, []⟩ labels = some (final, outputs)) :
    (Meets (step listeners) Alone ⟨initial, []⟩ labels →
      ∀ listener ∈ listeners, Consistent initial (history listener outputs)) ∧
    (final.calls = [] → listeners ≠ [] →
      ((∀ listener ∈ listeners, Consistent initial (history listener outputs) ∧
          told initial (history listener outputs) = final.val) ↔
        Meets (step listeners) Alone ⟨initial, []⟩ labels)) := by
  have start : Orderly initial listeners ⟨initial, []⟩ [] :=
    ⟨⟨nofun, nofun⟩, fun _ _ => trivial, Or.inl ⟨rfl, fun _ _ => rfl⟩⟩
  have ends := @trace_dichotomy _ _ _ (step listeners) Alone (Orderly initial listeners)
    (fun state outputs => Sound state ∧ ∀ listener ∈ listeners,
      Doomed initial listener state outputs)
    (fun _ _ _ _ orderly alone stepped => step_orderly keys orderly alone stepped)
    (fun _ _ _ _ orderly overlap stepped => ⟨step_sound keys orderly.sound stepped,
      fun _ mem => overlap_doomed orderly overlap stepped mem⟩)
    (fun _ _ _ _ bad stepped => ⟨step_sound keys bad.1 stepped,
      fun listener mem => step_doomed bad.1 (bad.2 listener mem) stepped⟩)
    labels _ _ [] _ start executed
  rw [List.nil_append] at ends
  rcases ends with ⟨meets, orderly⟩ | ⟨overlaps, _, doomed⟩
  · refine ⟨fun _ => orderly.consistent, fun quiet _ => iff_of_true ?_ meets⟩
    intro listener mem
    refine ⟨orderly.consistent listener mem, ?_⟩
    rcases orderly.single with ⟨_, same⟩ | ⟨call, one, _⟩
    · exact same listener mem
    · rw [quiet] at one
      cases one
  · refine ⟨fun meets => absurd meets overlaps, fun quiet some_key => iff_of_false ?_ overlaps⟩
    intro all
    obtain ⟨listener, mem⟩ := List.exists_mem_of_ne_nil listeners some_key
    have none : waiting listener final.calls = 0 := by
      rw [quiet]
      rfl
    rcases doomed listener mem with broken | two | ⟨one, _⟩
    · exact broken (all listener mem).1
    · omega
    · omega

/-- A listener of a variable that two calls change one behind the other. -/
theorem histories_consistent_twice :
    let outputs : List (Output Nat) := [.silent, .notified 7 0 1, .silent, .silent, .silent,
      .notified 7 1 2, .silent, .silent]
    (∀ listener ∈ [7], Consistent 0 (history listener outputs) ∧
      told 0 (history listener outputs) = 2) := by
  have executed : trace (step [7]) (⟨0, []⟩ : State Nat)
      [.enter 1, .notify 0, .leave 0, .store 0, .enter 2, .notify 0, .leave 0, .store 0] =
      some (⟨2, []⟩, [.silent, .notified 7 0 1, .silent, .silent, .silent, .notified 7 1 2, .silent,
        .silent]) := by
    decide
  exact ((histories_consistent_iff 0 (by decide) executed).2 rfl (by decide)).mpr (by decide)

/-- **Two calls overlap**: the listener is told of `1` and then of `2`, both as changes from `0`, and
the variable ends at `1`. -/
theorem last_told_not_stored :
    let outputs : List (Output Nat) := [.silent, .silent, .notified 7 0 1, .notified 7 0 2, .silent,
      .silent, .silent, .silent]
    trace (step [7]) (⟨0, []⟩ : State Nat)
        [.enter 1, .enter 2, .notify 0, .notify 1, .leave 0, .leave 1, .store 1, .store 0] =
      some (⟨1, []⟩, outputs) ∧
    ¬ Consistent 0 (history 7 outputs) ∧ told 0 (history 7 outputs) = 2 := by
  refine ⟨by decide, ?_, by decide⟩
  rintro ⟨_, again, _⟩
  exact absurd again (by decide)

end Wyze.ConfigVar
