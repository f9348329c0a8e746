/-
**The locks of `thread.h` and their guards.**

`ScopeLockImpl`, `ReadScopeLockImpl` and `WriteScopeLockImpl` are guards of a lock. `Mutex`, `SpinLock`
and `RWMutex` are locks of the pthread library; `CASLock` is a flag, whose `unlock` sets it once more
where it should clear it.

* `locks_guard`: with the pthread locks an exclusive holder is alone in every run, and a guard gets its
  lock exactly when no holder is in its way.
* `casLock_iff`: **a `CASLock` runs as a `Mutex` until it is taken, and it is never taken again.**
-/
import Wyze.Lib.Guards

namespace Wyze.Thread

open Guards

/-! ### The locks -/

/-- A lock that is taken or not, and has one kind of `lock`. -/
def exclusiveLock (release : Bool → Bool) : Lock Bool where
  free := false
  supports mode := mode = .exclusive
  acquire mode taken := if mode = .exclusive ∧ taken = false then some true else none
  release := release

/-- `Mutex`: `pthread_mutex_lock`, `pthread_mutex_unlock`. -/
def mutex : Lock Bool := exclusiveLock fun _ => false

/-- `SpinLock`: `pthread_spin_lock`, `pthread_spin_unlock`. -/
def spinLock : Lock Bool := exclusiveLock fun _ => false

/-- `CASLock`: `lock` returns when `test_and_set` finds the flag clear, and `unlock` is a `test_and_set`
as well. -/
def casLock : Lock Bool := exclusiveLock fun _ => true

/-- The holders of a `pthread_rwlock_t`. -/
structure Holders where
  readers : Nat
  writer : Bool
  deriving DecidableEq, Repr

/-- `RWMutex`: `rdlock` waits for a writer, `wrlock` for everybody. -/
def rwMutex : Lock Holders where
  free := ⟨0, false⟩
  supports _ := true
  acquire mode now :=
    match mode with
    | .exclusive => if now.readers = 0 ∧ now.writer = false then some ⟨0, true⟩ else none
    | .shared => if now.writer = false then some { now with readers := now.readers + 1 } else none
  release now :=
    if now.writer then { now with writer := false } else { now with readers := now.readers - 1 }

/-! ### What they count -/

theorem acquire_exclusive (release : Bool → Bool) (mode : Mode) (taken : Bool) :
    (exclusiveLock release).acquire mode taken =
      if mode = .exclusive ∧ taken = false then some true else none := rfl

/-- A lock of one kind is taken when it has a holder. -/
def countsTaken (exclusive shared : Nat) (taken : Bool) : Prop :=
  exclusive = taken.toNat ∧ shared = 0

theorem accounts_exclusive : Accounts (exclusiveLock fun _ => false) countsTaken where
  free := ⟨rfl, rfl⟩
  alone counted acquired := by
    rw [acquire_exclusive] at acquired
    split_ifs at acquired with isFree
    cases acquired
    obtain ⟨holders, none⟩ := counted
    rw [isFree.2] at holders
    exact ⟨holders, none, rfl, rfl⟩
  together _ acquired := by
    rw [acquire_exclusive, if_neg (by rintro ⟨⟨⟩, _⟩)] at acquired
    cases acquired
  given _ := ⟨rfl, rfl⟩
  left counted := absurd counted.2 (Nat.succ_ne_zero _)
  returns {mode now exclusive shared} counted has noWriter _ := by
    have isFree : now = false := by
      cases now with
      | false => rfl
      | true => exact absurd (noWriter.symm.trans counted.1) (by decide)
    rw [acquire_exclusive, if_pos ⟨of_decide_eq_true has, isFree⟩]
    rfl

/-- A `RWMutex` counts its readers, and whether there is a writer. -/
def countsHolders (exclusive shared : Nat) (now : Holders) : Prop :=
  exclusive = now.writer.toNat ∧ shared = now.readers

theorem accounts_rwMutex : Accounts rwMutex countsHolders where
  free := ⟨rfl, rfl⟩
  alone counted acquired := by
    simp only [rwMutex] at acquired
    split_ifs at acquired with isFree
    cases acquired
    obtain ⟨writers, readers⟩ := counted
    rw [isFree.2] at writers
    exact ⟨writers, readers.trans isFree.1, rfl, rfl⟩
  together counted acquired := by
    simp only [rwMutex] at acquired
    split_ifs at acquired with noWriter
    cases acquired
    obtain ⟨writers, readers⟩ := counted
    rw [noWriter] at writers
    exact ⟨writers, by rw [noWriter]; rfl, congrArg (· + 1) readers⟩
  given {now} counted := by
    have isWriter : now.writer = true := by
      cases writer : now.writer with
      | false =>
          rw [countsHolders, writer] at counted
          exact absurd counted.1 (by decide)
      | true => rfl
    simp only [rwMutex, isWriter, if_true]
    exact ⟨rfl, counted.2⟩
  left {now shared} counted := by
    have noWriter : now.writer = false := by
      cases writer : now.writer with
      | false => rfl
      | true =>
          rw [countsHolders, writer] at counted
          exact absurd counted.1 (by decide)
    simp only [rwMutex, noWriter, Bool.false_eq_true, if_false]
    refine ⟨rfl, ?_⟩
    show shared = now.readers - 1
    rw [← counted.2]
    rfl
  returns {mode now exclusive shared} counted _ noExclusive noReader := by
    have noWriter : now.writer = false := by
      cases writer : now.writer with
      | false => rfl
      | true =>
          rw [countsHolders, writer] at counted
          exact absurd (noExclusive.symm.trans counted.1) (by decide)
    cases mode with
    | exclusive =>
        simp only [rwMutex, noWriter, ← counted.2, noReader rfl, and_self, if_true]
        rfl
    | shared =>
        simp only [rwMutex, noWriter, if_true]
        rfl

/-! ### Runs with the pthread locks -/

variable {ι κ : Type*} [Fintype ι] [DecidableEq ι]

/-- **What the code relies on** in a state of a lock and its guards: an exclusive holder is alone, and a
call that takes the lock returns exactly when no holder is in its way. -/
structure Guarding (lock : Lock κ) (state : State ι κ) : Prop where
  alone : ∀ first second, state.guards first = .there .exclusive true →
    (state.guards second).locked = true → first = second
  returns : ∀ mode, lock.supports mode = true →
    ((lock.acquire mode state.lock).isSome ↔
      ∀ other own, state.guards other = .there own true → mode = .shared ∧ own = .shared)

theorem guarding_of_accounts {lock : Lock κ} {counts : Nat → Nat → κ → Prop}
    (accounts : Accounts lock counts) {labels : List (Label ι)} {state : State ι κ}
    {outputs : List Bool}
    (executed : Labelled.trace (step lock) (start lock) labels = some (state, outputs)) :
    Guarding lock state where
  alone _ _ holds other := Guards.alone (accounted accounts executed) holds other
  returns _ has := acquires_iff accounts (accounted accounts executed) has

/-- **The pthread locks guard** in every run, whatever the calls on the guards are and in whatever order
they are made. -/
theorem locks_guard (labels : List (Label ι)) (outputs : List Bool) :
    (∀ state, Labelled.trace (step mutex) (start mutex) labels = some (state, outputs) →
      Guarding mutex state) ∧
    (∀ state, Labelled.trace (step spinLock) (start spinLock) labels = some (state, outputs) →
      Guarding spinLock state) ∧
    (∀ state, Labelled.trace (step rwMutex) (start rwMutex) labels = some (state, outputs) →
      Guarding rwMutex state) :=
  ⟨fun _ executed => guarding_of_accounts accounts_exclusive executed,
    fun _ executed => guarding_of_accounts accounts_exclusive executed,
    fun _ executed => guarding_of_accounts accounts_rwMutex executed⟩

/-- Two guards, one after the other. -/
def twoGuards : List (Label Bool) :=
  [.construct false .exclusive, .unlock false, .construct true .exclusive]

theorem locks_guard_two :
    (∃ state, Labelled.trace (step mutex) (start mutex) twoGuards = some (state, [true, false, true]) ∧
      Guarding mutex state) ∧
    (∃ state, Labelled.trace (step spinLock) (start spinLock) twoGuards =
      some (state, [true, false, true]) ∧ Guarding spinLock state) ∧
    (∃ state, Labelled.trace (step rwMutex) (start rwMutex) twoGuards =
      some (state, [true, false, true]) ∧ Guarding rwMutex state) :=
  have guard := locks_guard twoGuards [true, false, true]
  ⟨⟨_, rfl, guard.1 _ rfl⟩, ⟨_, rfl, guard.2.1 _ rfl⟩, ⟨_, rfl, guard.2.2 _ rfl⟩⟩

/-! ### Runs with `CASLock` -/

omit [Fintype ι]

/-- A `CASLock` and a `Mutex` with the same guards; the flag of the first one is set when the second
one is taken or a guard has it. -/
structure Alike (cas real : State ι Bool) : Prop where
  guards : cas.guards = real.guards
  flag : real.lock = true → cas.lock = true
  taken : ∀ guard, (cas.guards guard).locked = true → cas.lock = true

variable {cas real : State ι Bool}

/-- The guards after a lock is taken have their flag from it. -/
theorem Alike.takes (alike : Alike cas real) (guard : ι) (mode : Mode) :
    Alike ⟨true, Function.update cas.guards guard (.there mode true)⟩
      ⟨true, Function.update real.guards guard (.there mode true)⟩ :=
  ⟨by rw [alike.guards], fun _ => rfl, fun _ _ => rfl⟩

/-- A guard without the lock, made or destroyed. -/
theorem Alike.goes (alike : Alike cas real) (guard : ι) {next : Guard} (isOpen : next.locked = false) :
    Alike ⟨cas.lock, Function.update cas.guards guard next⟩
      ⟨real.lock, Function.update real.guards guard next⟩ := by
  refine ⟨by rw [alike.guards], alike.flag, fun other locked => ?_⟩
  dsimp only at locked ⊢
  by_cases same : other = guard
  · subst same
    rw [Function.update_self, isOpen] at locked
    cases locked
  · rw [Function.update_of_ne same] at locked
    exact alike.taken other locked

/-- A guard that has given the lock back: the flag of the `CASLock` stays set. -/
theorem Alike.gives (alike : Alike cas real) (guard : ι) (next : Guard) :
    Alike ⟨true, Function.update cas.guards guard next⟩
      ⟨false, Function.update real.guards guard next⟩ :=
  ⟨by rw [alike.guards], fun taken => absurd taken Bool.false_ne_true, fun _ _ => rfl⟩

/-- What a call on a `CASLock` makes of what it does on a `Mutex`: the same, unless it takes a lock
whose flag is set. -/
def Follows (cas : State ι Bool) (onMutex onCas : Option (State ι Bool × Bool)) : Prop :=
  match onMutex with
  | none => onCas = none
  | some (real, output) =>
    if output = true ∧ cas.lock = true then onCas = none
    else ∃ next, onCas = some (next, output) ∧ Alike next real ∧ next.lock = (cas.lock || output)

theorem follows_take (alike : Alike cas real) (guard : ι) (mode : Mode) :
    Follows cas (take mutex real guard mode) (take casLock cas guard mode) := by
  unfold take mutex casLock
  rw [acquire_exclusive, acquire_exclusive]
  by_cases isFree : mode = .exclusive ∧ real.lock = false
  · rw [if_pos isFree]
    show if true = true ∧ cas.lock = true then _ else _
    by_cases flag : cas.lock = true
    · rw [if_pos ⟨rfl, flag⟩, if_neg (by rw [flag]; rintro ⟨_, ⟨⟩⟩)]
      rfl
    · rw [if_neg (fun both => flag both.2), if_pos ⟨isFree.1, Bool.eq_false_iff.mpr flag⟩]
      exact ⟨_, rfl, alike.takes guard mode, (Bool.or_true _).symm⟩
  · rw [if_neg isFree]
    have notFree : ¬ (mode = .exclusive ∧ cas.lock = false) := by
      rintro ⟨exclusive, clear⟩
      refine isFree ⟨exclusive, Bool.eq_false_iff.mpr fun taken => ?_⟩
      rw [alike.flag taken] at clear
      cases clear
    rw [if_neg notFree]
    rfl

omit [DecidableEq ι] in
theorem follows_silent {next next' : State ι Bool} (alike : Alike next' next)
    (flag : next'.lock = cas.lock) : Follows cas (some (next, false)) (some (next', false)) := by
  unfold Follows
  dsimp only
  rw [if_neg (by rintro ⟨⟨⟩, _⟩)]
  exact ⟨next', rfl, alike, by rw [flag, Bool.or_false]⟩

/-- **One call** on the two locks. -/
theorem follows_step (alike : Alike cas real) (label : Label ι) :
    Follows cas (step mutex real label) (step casLock cas label) := by
  obtain ⟨flag, guards⟩ := cas
  obtain ⟨taken, guards'⟩ := real
  obtain rfl : guards = guards' := alike.guards
  have gives {guard : ι} {mode : Mode} (next : Guard) (locked : guards guard = .there mode true) :
      Follows ⟨flag, guards⟩ (some (⟨false, Function.update guards guard next⟩, false))
        (some (⟨true, Function.update guards guard next⟩, false)) :=
    have isTaken : (guards guard).locked = true := by
      rw [locked]
      rfl
    follows_silent (alike.gives guard next) (alike.taken guard isTaken).symm
  cases label with
  | construct guard mode =>
      cases isGuard : guards guard with
      | gone =>
          simp only [step, isGuard]
          rw [show casLock.supports mode = mutex.supports mode from rfl]
          split_ifs
          · exact follows_take alike guard mode
          · rfl
      | there own locked =>
          simp only [step, isGuard]
          rfl
  | lock guard =>
      rcases isGuard : guards guard with _ | ⟨mode, _ | _⟩
      · simp only [step, isGuard]
        rfl
      · simp only [step, isGuard]
        exact follows_take alike guard mode
      · simp only [step, isGuard]
        exact follows_silent alike rfl
  | unlock guard =>
      rcases isGuard : guards guard with _ | ⟨mode, _ | _⟩
      · simp only [step, isGuard]
        rfl
      · simp only [step, isGuard]
        exact follows_silent alike rfl
      · simp only [step, isGuard]
        exact gives _ isGuard
  | destroy guard =>
      rcases isGuard : guards guard with _ | ⟨mode, _ | _⟩
      · simp only [step, isGuard]
        rfl
      · simp only [step, isGuard]
        exact follows_silent (alike.goes guard rfl) rfl
      · simp only [step, isGuard]
        exact gives _ isGuard

/-- What is taken so far, and once more. -/
theorem count_cons_le {taken output : Bool} {outputs : List Bool}
    (once : ¬ (output = true ∧ taken = true)) :
    (output :: outputs).count true + taken.toNat = outputs.count true + (taken || output).toNat := by
  cases output
  · rw [List.count_cons_of_ne Bool.false_ne_true, Bool.or_false]
  · obtain rfl : taken = false := Bool.eq_false_iff.mpr fun both => once ⟨rfl, both⟩
    rw [List.count_cons_self]
    rfl

/-- The runs from two states that are alike. -/
theorem trace_casLock (labels : List (Label ι)) :
    ∀ {cas real final : State ι Bool} {outputs : List Bool}, Alike cas real →
      (Labelled.trace (step casLock) cas labels = some (final, outputs) ↔
        ∃ last, Labelled.trace (step mutex) real labels = some (last, outputs) ∧
          outputs.count true + cas.lock.toNat ≤ 1 ∧
          final.guards = last.guards ∧ final.lock = (cas.lock || outputs.any id)) := by
  induction labels with
  | nil =>
      intro cas real final outputs alike
      constructor
      · intro executed
        cases executed
        exact ⟨real, rfl, by rw [List.count_nil, Nat.zero_add]; exact Bool.toNat_le _, alike.guards,
          (Bool.or_false _).symm⟩
      · rintro ⟨last, executed, _, guards, lock⟩
        cases executed
        obtain ⟨flag, guards'⟩ := final
        obtain rfl : guards' = cas.guards := guards.trans alike.guards.symm
        obtain rfl : flag = cas.lock := lock.trans (Bool.or_false _)
        rfl
  | cons label labels ih =>
      intro cas real final outputs alike
      have follows := follows_step alike label
      unfold Follows at follows
      cases onMutex : step mutex real label with
      | none =>
          rw [onMutex] at follows
          refine iff_of_false ?_ ?_
          · intro executed
            obtain ⟨next, output, rest, stepped, _⟩ := Labelled.trace_cons_eq_some.mp executed
            rw [show step casLock cas label = none from follows] at stepped
            cases stepped
          · rintro ⟨last, executed, _⟩
            obtain ⟨next, output, rest, stepped, _⟩ := Labelled.trace_cons_eq_some.mp executed
            rw [onMutex] at stepped
            cases stepped
      | some onward =>
          obtain ⟨next, output⟩ := onward
          rw [onMutex] at follows
          dsimp only at follows
          split_ifs at follows with twice
          · -- the lock is taken a second time: a `Mutex` goes on, a `CASLock` does not
            refine iff_of_false ?_ ?_
            · intro executed
              obtain ⟨_, _, _, stepped, _⟩ := Labelled.trace_cons_eq_some.mp executed
              rw [follows] at stepped
              cases stepped
            · rintro ⟨last, executed, count, _⟩
              obtain ⟨_, _, rest, stepped, _, rfl⟩ := Labelled.trace_cons_eq_some.mp executed
              rw [onMutex] at stepped
              cases stepped
              rw [twice.1, twice.2, List.count_cons_self, Bool.toNat_true] at count
              omega
          · obtain ⟨cas', onCas, alike', flag⟩ := follows
            have later := fun rest => @ih cas' next final rest alike'
            constructor
            · intro executed
              obtain ⟨_, _, rest, stepped, tail, rfl⟩ := Labelled.trace_cons_eq_some.mp executed
              rw [onCas] at stepped
              cases stepped
              obtain ⟨last, tail', count, guards, lock⟩ := (later rest).mp tail
              refine ⟨last, Labelled.trace_cons_eq_some.mpr ⟨_, _, _, onMutex, tail', rfl⟩, ?_, guards, ?_⟩
              · rw [count_cons_le twice, ← flag]
                exact count
              · rw [lock, flag, List.any_cons, Bool.or_assoc]
                rfl
            · rintro ⟨last, executed, count, guards, lock⟩
              obtain ⟨_, _, rest, stepped, tail, rfl⟩ := Labelled.trace_cons_eq_some.mp executed
              rw [onMutex] at stepped
              cases stepped
              refine Labelled.trace_cons_eq_some.mpr
                ⟨_, _, rest, onCas, (later rest).mpr ⟨last, tail, ?_, guards, ?_⟩, rfl⟩
              · rw [flag, ← count_cons_le twice]
                exact count
              · rw [lock, flag, List.any_cons, Bool.or_assoc]
                rfl

/-- **A `CASLock` is taken once.** Its runs are those of a `Mutex` in which no guard takes the lock
after one has, with the same guards; its flag is then set for good. -/
theorem casLock_iff (labels : List (Label ι)) (final : State ι Bool) (outputs : List Bool) :
    Labelled.trace (step casLock) (start casLock) labels = some (final, outputs) ↔
      ∃ last, Labelled.trace (step mutex) (start mutex) labels = some (last, outputs) ∧
        outputs.count true ≤ 1 ∧
        final.guards = last.guards ∧ final.lock = outputs.any id := by
  have alike : Alike (start casLock : State ι Bool) (start mutex) :=
    ⟨rfl, id, fun _ locked => absurd locked Bool.false_ne_true⟩
  exact trace_casLock labels alike

end Wyze.Thread
