/-
**Guards of a lock.**

A guard takes its lock when it is made, gives it back when it is destroyed, and may do both in between;
it remembers in a flag whether it has the lock. A call that takes a lock may not return (yet), which is
a label that is not enabled. The guards of one lock belong to any number of parties, and a run is any
interleaving of their calls.

* `Accounts`: a lock keeps account of its holders.
* `accounted`: **in every run the lock counts the guards whose flags are set**, and a holder that is to
  be alone is.
* `acquires_iff`: a guard gets its lock exactly when no holder is in its way.
-/
import Wyze.Lib.Parties
import Wyze.Lib.Run

namespace Guards

open Parties

/-- How a guard takes its lock. -/
inductive Mode where
  | exclusive | shared
  deriving DecidableEq, Repr

/-- A lock: the calls it has, when they return and what they leave. -/
structure Lock (κ : Type*) where
  free : κ
  supports : Mode → Bool
  acquire : Mode → κ → Option κ
  release : κ → κ

/-- A guard, with its flag. -/
inductive Guard where
  | gone
  | there (mode : Mode) (locked : Bool)
  deriving DecidableEq, Repr

/-- The flag is set, and the guard is of that mode. -/
def Guard.has (mode : Mode) : Guard → Bool
  | .there own true => own = mode
  | _ => false

/-- The flag is set. -/
def Guard.locked : Guard → Bool
  | .there _ true => true
  | _ => false

/-- The lock and its guards. -/
structure State (ι κ : Type*) where
  lock : κ
  guards : ι → Guard

/-- The calls on a guard. -/
inductive Label (ι : Type*) where
  | construct (guard : ι) (mode : Mode)
  | lock (guard : ι)
  | unlock (guard : ι)
  | destroy (guard : ι)

variable {ι κ : Type*} [DecidableEq ι] (lock : Lock κ)

/-- The lock is taken, and the flag is set. -/
def take (state : State ι κ) (guard : ι) (mode : Mode) : Option (State ι κ × Bool) :=
  (lock.acquire mode state.lock).map fun taken =>
    (⟨taken, Function.update state.guards guard (.there mode true)⟩, true)

/-- One call. The output says whether it has taken the lock. -/
def step (state : State ι κ) : Label ι → Option (State ι κ × Bool)
  | .construct guard mode =>
    match state.guards guard with
    | .gone => if lock.supports mode then take lock state guard mode else none
    | .there _ _ => none
  | .lock guard =>
    match state.guards guard with
    | .gone => none
    | .there _ true => some (state, false)
    | .there mode false => take lock state guard mode
  | .unlock guard =>
    match state.guards guard with
    | .gone => none
    | .there mode true =>
      some (⟨lock.release state.lock, Function.update state.guards guard (.there mode false)⟩, false)
    | .there _ false => some (state, false)
  | .destroy guard =>
    match state.guards guard with
    | .gone => none
    | .there _ true => some (⟨lock.release state.lock, Function.update state.guards guard .gone⟩, false)
    | .there _ false => some ({ state with guards := Function.update state.guards guard .gone }, false)

/-- No guards. -/
def start : State ι κ := ⟨lock.free, fun _ => .gone⟩

/-- **What a call does**: it takes the lock for a guard without it, gives it back from a guard that has
it, or changes nothing but a flag that is not set. -/
inductive Moves (state : State ι κ) : State ι κ × Bool → Prop
  | takes {guard : ι} {mode : Mode} {taken : κ} (without : (state.guards guard).locked = false)
      (acquired : lock.acquire mode state.lock = some taken) :
      Moves state (⟨taken, Function.update state.guards guard (.there mode true)⟩, true)
  | gives {guard : ι} {mode : Mode} {next : Guard} (with' : state.guards guard = .there mode true)
      (open' : next.locked = false) :
      Moves state (⟨lock.release state.lock, Function.update state.guards guard next⟩, false)
  | goes {guard : ι} {next : Guard} (without : (state.guards guard).locked = false)
      (open' : next.locked = false) :
      Moves state (⟨state.lock, Function.update state.guards guard next⟩, false)
  | stays : Moves state (state, false)

variable {lock}

/-- **The calls, by what they do.** -/
theorem moves_of_step {state : State ι κ} {label : Label ι} {next : State ι κ × Bool}
    (stepped : step lock state label = some next) : Moves lock state next := by
  have takes {guard : ι} {mode : Mode} (without : (state.guards guard).locked = false)
      (taken : take lock state guard mode = some next) : Moves lock state next := by
    obtain ⟨after, acquired, rfl⟩ := Option.map_eq_some_iff.mp taken
    exact .takes without acquired
  cases label with
  | construct guard mode =>
      cases isGuard : state.guards guard with
      | gone =>
          simp only [step, isGuard] at stepped
          split_ifs at stepped
          exact takes (by rw [isGuard]; rfl) stepped
      | there own locked =>
          simp only [step, isGuard] at stepped
          cases stepped
  | lock guard =>
      rcases isGuard : state.guards guard with _ | ⟨mode, _ | _⟩
      · simp only [step, isGuard] at stepped
        cases stepped
      · simp only [step, isGuard] at stepped
        exact takes (by rw [isGuard]; rfl) stepped
      · simp only [step, isGuard] at stepped
        cases stepped
        exact .stays
  | unlock guard =>
      rcases isGuard : state.guards guard with _ | ⟨mode, _ | _⟩
      · simp only [step, isGuard] at stepped
        cases stepped
      · simp only [step, isGuard] at stepped
        cases stepped
        exact .stays
      · simp only [step, isGuard] at stepped
        cases stepped
        exact .gives isGuard rfl
  | destroy guard =>
      rcases isGuard : state.guards guard with _ | ⟨mode, _ | _⟩
      · simp only [step, isGuard] at stepped
        cases stepped
      · simp only [step, isGuard] at stepped
        cases stepped
        exact .goes (by rw [isGuard]; rfl) rfl
      · simp only [step, isGuard] at stepped
        cases stepped
        exact .gives isGuard rfl

/-! ### Accounts -/

/-- **The lock keeps account**: `counts` says of a lock how many exclusive and how many shared holders
it has. -/
structure Accounts (lock : Lock κ) (counts : Nat → Nat → κ → Prop) : Prop where
  free : counts 0 0 lock.free
  alone {taken now : κ} {exclusive shared : Nat} (counted : counts exclusive shared now)
    (acquired : lock.acquire .exclusive now = some taken) :
    exclusive = 0 ∧ shared = 0 ∧ counts 1 0 taken
  together {taken now : κ} {exclusive shared : Nat} (counted : counts exclusive shared now)
    (acquired : lock.acquire .shared now = some taken) :
    exclusive = 0 ∧ counts 0 (shared + 1) taken
  given {now : κ} (counted : counts 1 0 now) : counts 0 0 (lock.release now)
  left {now : κ} {shared : Nat} (counted : counts 0 (shared + 1) now) :
    counts 0 shared (lock.release now)
  returns {mode : Mode} {now : κ} {exclusive shared : Nat} (counted : counts exclusive shared now)
    (has : lock.supports mode = true) (noWriter : exclusive = 0)
    (noReader : mode = .exclusive → shared = 0) : (lock.acquire mode now).isSome

/-- So many exclusive and so many shared holders, and an exclusive holder is alone. -/
structure Account (counts : Nat → Nat → κ → Prop) (exclusive shared : Nat) (now : κ) : Prop where
  counted : counts exclusive shared now
  alone : 0 < exclusive → exclusive = 1 ∧ shared = 0

/-- What a holder of one mode adds to the number of those of another. -/
def Mode.counts (mode other : Mode) : Nat := (decide (mode = other)).toNat

section

variable {counts : Nat → Nat → κ → Prop} {exclusive shared : Nat} {now : κ} {mode : Mode}

/-- **The account after the lock is taken.** -/
theorem Account.takes (accounts : Accounts lock counts)
    (account : Account counts exclusive shared now) {taken : κ}
    (acquired : lock.acquire mode now = some taken) :
    Account counts (exclusive + mode.counts .exclusive) (shared + mode.counts .shared) taken := by
  cases mode with
  | exclusive =>
      obtain ⟨rfl, rfl, after⟩ := accounts.alone account.counted acquired
      exact ⟨after, fun _ => ⟨rfl, rfl⟩⟩
  | shared =>
      obtain ⟨rfl, after⟩ := accounts.together account.counted acquired
      exact ⟨after, fun some => absurd some (Nat.lt_irrefl 0)⟩

/-- **The account after a holder has given the lock back.** -/
theorem Account.gives (accounts : Accounts lock counts)
    (account : Account counts (exclusive + mode.counts .exclusive) (shared + mode.counts .shared) now) :
    Account counts exclusive shared (lock.release now) := by
  cases mode with
  | exclusive =>
      obtain ⟨one, none⟩ := account.alone (Nat.succ_pos _)
      obtain rfl : exclusive = 0 := Nat.succ.inj one
      obtain rfl : shared = 0 := none
      exact ⟨accounts.given account.counted, fun some => absurd some (Nat.lt_irrefl 0)⟩
  | shared =>
      obtain rfl : exclusive = 0 := by
        by_contra some
        exact Nat.succ_ne_zero _ (account.alone (Nat.pos_of_ne_zero some)).2
      exact ⟨accounts.left account.counted, fun some => absurd some (Nat.lt_irrefl 0)⟩

end

/-! ### Runs -/

section

variable [Fintype ι] {counts : Nat → Nat → κ → Prop}

/-- **The lock counts the guards whose flags are set**, and an exclusive holder is alone. -/
def Accounted (counts : Nat → Nat → κ → Prop) (state : State ι κ) : Prop :=
  Account counts (howMany (Guard.has .exclusive) state.guards)
    (howMany (Guard.has .shared) state.guards) state.lock

theorem has_of_open {guard : Guard} (isOpen : guard.locked = false) (mode : Mode) :
    guard.has mode = false := by
  rcases guard with _ | ⟨own, _ | _⟩
  · rfl
  · rfl
  · cases isOpen

variable {guards : ι → Guard} {guard : ι}

/-- Guards without the lock count for nothing. -/
theorem howMany_open {next : Guard} (without : (guards guard).locked = false)
    (isOpen : next.locked = false) (mode : Mode) :
    howMany (Guard.has mode) (Function.update guards guard next) =
      howMany (Guard.has mode) guards := by
  have moved := howMany_update (Guard.has mode) guards guard next
  rw [has_of_open without, has_of_open isOpen] at moved
  exact moved

theorem howMany_takes {mode : Mode} (without : (guards guard).locked = false) (other : Mode) :
    howMany (Guard.has other) (Function.update guards guard (.there mode true)) =
      howMany (Guard.has other) guards + mode.counts other := by
  have moved := howMany_update (Guard.has other) guards guard (.there mode true)
  rw [has_of_open without] at moved
  exact moved

theorem howMany_gives {mode : Mode} {next : Guard} (with' : guards guard = .there mode true)
    (isOpen : next.locked = false) (other : Mode) :
    howMany (Guard.has other) guards =
      howMany (Guard.has other) (Function.update guards guard next) + mode.counts other := by
  have moved := howMany_update (Guard.has other) guards guard next
  rw [has_of_open isOpen, with'] at moved
  exact moved.symm

/-- **One call keeps the account.** -/
theorem accounted_step (accounts : Accounts lock counts) {state : State ι κ} {label : Label ι}
    {next : State ι κ × Bool} (stepped : step lock state label = some next)
    (before : Accounted counts state) : Accounted counts next.1 := by
  unfold Accounted at before ⊢
  cases moves_of_step stepped with
  | stays => exact before
  | goes without isOpen =>
      simp only [howMany_open without isOpen]
      exact before
  | takes without acquired =>
      simp only [howMany_takes without]
      exact before.takes accounts acquired
  | gives with' isOpen =>
      rw [howMany_gives with' isOpen, howMany_gives with' isOpen] at before
      exact before.gives accounts

/-- **Every run keeps the account.** -/
theorem accounted (accounts : Accounts lock counts) {labels : List (Label ι)} {state : State ι κ}
    {outputs : List Bool}
    (executed : Labelled.trace (step lock) (start lock) labels = some (state, outputs)) :
    Accounted counts state := by
  have begins : Accounted counts (start lock : State ι κ) := by
    have none (mode : Mode) : howMany (Guard.has mode) (start lock : State ι κ).guards = 0 :=
      howMany_const_false rfl
    unfold Accounted
    rw [none, none]
    exact ⟨accounts.free, fun some => absurd some (Nat.lt_irrefl 0)⟩
  exact Labelled.trace_invariant' (fun _ _ _ kept stepped => accounted_step accounts stepped kept) begins
    executed

/-! ### Who is in whose way -/

theorem has_iff {guard : Guard} {mode : Mode} : guard.has mode = true ↔ guard = .there mode true := by
  rcases guard with _ | ⟨own, _ | _⟩
  · exact iff_of_false Bool.false_ne_true (by rintro ⟨⟩)
  · exact iff_of_false Bool.false_ne_true (by rintro ⟨⟩)
  · rw [Guard.has, decide_eq_true_eq, Guard.there.injEq]
    exact (and_iff_left rfl).symm

/-- **An exclusive holder is alone.** -/
theorem alone {state : State ι κ} (accounted : Accounted counts state) {first second : ι}
    (holds : state.guards first = .there .exclusive true)
    (other : (state.guards second).locked = true) : first = second := by
  have some : 0 < howMany (Guard.has .exclusive) state.guards := howMany_pos (has_iff.mpr holds)
  obtain ⟨one, none⟩ := accounted.alone some
  rcases isSecond : state.guards second with _ | ⟨mode, _ | _⟩
  · rw [isSecond] at other
    cases other
  · rw [isSecond] at other
    cases other
  · cases mode with
    | exclusive =>
        by_contra apart
        -- without the first guard the second one is still counted
        have without := howMany_gives holds (show Guard.gone.locked = false from rfl) .exclusive
        have there : 0 < howMany (Guard.has .exclusive) (Function.update state.guards first .gone) :=
          howMany_pos (has_iff.mpr
            (by rw [Function.update_of_ne (Ne.symm apart)]; exact isSecond))
        rw [one, show Mode.counts .exclusive .exclusive = 1 from rfl] at without
        omega
    | shared =>
        have there := howMany_pos (has_iff.mpr isSecond)
        omega

omit [DecidableEq ι] in
/-- **A guard gets its lock exactly when no holder is in its way.** -/
theorem acquires_iff (accounts : Accounts lock counts) {state : State ι κ}
    (accounted : Accounted counts state) {mode : Mode} (has : lock.supports mode = true) :
    (lock.acquire mode state.lock).isSome ↔
      ∀ other own, state.guards other = .there own true → mode = .shared ∧ own = .shared := by
  obtain ⟨counted, _⟩ := accounted
  have noneOf (other : Mode) (never : ∀ i, state.guards i ≠ .there other true) :
      howMany (Guard.has other) state.guards = 0 := by
    by_contra some
    obtain ⟨i, mem⟩ := Finset.card_pos.mp (Nat.pos_of_ne_zero some)
    exact never i (has_iff.mp (Finset.mem_filter.mp mem).2)
  constructor
  · intro acquired other own holds
    obtain ⟨taken, isTaken⟩ := Option.isSome_iff_exists.mp acquired
    have here := howMany_pos (has_iff.mpr holds)
    cases mode with
    | exclusive =>
        obtain ⟨noWriter, noReader, _⟩ := accounts.alone counted isTaken
        cases own with
        | exclusive => omega
        | shared => omega
    | shared =>
        obtain ⟨noWriter, _⟩ := accounts.together counted isTaken
        cases own with
        | exclusive => omega
        | shared => exact ⟨rfl, rfl⟩
  · intro free
    refine accounts.returns counted has (noneOf .exclusive fun i holds => ?_) fun alone =>
      noneOf .shared fun i holds => ?_
    · cases (free i .exclusive holds).2
    · rw [alone] at free
      cases (free i .shared holds).1

end

end Guards
