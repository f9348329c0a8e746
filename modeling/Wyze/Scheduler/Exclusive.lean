/-
**When no fiber runs on two workers.**

`YeildToHold` and `YeildToReady` change `m_state` before `swapOut` has saved the context. A fiber that
is in `m_fibers` by then (an event has fired) can be taken and switched to in between:
`switched_before_saved`. Likewise two entries of one fiber can both be taken before `swapIn` writes
`EXEC`.

* `AtRest`: the fiber that a scan takes is in no other worker's hands, or it has ended.
* `Lone`: what the workers' phases say about one fiber while all scans are so; every step keeps it.
* `exclusive_iff_at_rest`: in every run whose scans are so, no fiber runs on two workers and every
  switch finds its context saved; and after any scan that is not so, the run can go on to break both.
-/
import Wyze.Scheduler.Accounts

namespace Wyze.Scheduler

open Labelled

variable {n : Nat} {φ γ : Type*}

/-! ### One fiber -/

/-- What a worker's phase says about one fiber: nothing, or where the worker is with it. -/
inductive View where
  | away
  | taken
  | entering
  | asserted
  | marked
  | executing
  | leaving
  | after
deriving DecidableEq

namespace View

/-- The worker has the fiber in hand. -/
def holds : View → Bool
  | .taken | .entering | .asserted | .marked | .executing | .leaving => true
  | .away | .after => false

/-- The worker is past the tests of `run`, and the fiber has not come to its next yield. -/
def inside : View → Bool
  | .entering | .asserted | .marked | .executing => true
  | .away | .taken | .leaving | .after => false

/-- The worker runs on the fiber's stack. -/
def runs : View → Bool
  | .executing | .leaving => true
  | .away | .taken | .entering | .asserted | .marked | .after => false

/-- `m_state` is `EXEC`. -/
def exec : View → Bool
  | .marked | .executing => true
  | .away | .taken | .entering | .asserted | .leaving | .after => false

theorem holds_of_inside {view : View} (inside : view.inside = true) : view.holds = true := by
  cases view <;> first | rfl | cases inside

theorem holds_of_runs {view : View} (runs : view.runs = true) : view.holds = true := by
  cases view <;> first | rfl | cases runs

theorem inside_of_exec {view : View} (exec : view.exec = true) : view.inside = true := by
  cases view <;> first | rfl | cases exec

end View

/-- The fiber has ended. -/
def spent (object : Option Fiber) : Bool := object.any fun fiber => fiber.state.ended

/-- **One fiber and its workers.** While it has not ended one worker at most has it in hand, and
afterwards no worker goes on to run it; one at most is on its stack; its context is saved exactly if
none is; and its state is `EXEC` from `swapIn` to the yield. -/
structure Lone {ι : Type*} (views : ι → View) (object : Option Fiber) : Prop where
  known : ∀ w, views w ≠ .away → object.isSome = true
  alone : spent object = false → ∀ v w, (views v).holds = true → (views w).holds = true → v = w
  ended : spent object = true → ∀ w, (views w).inside = false
  one : ∀ v w, (views v).runs = true → (views w).runs = true → v = w
  saved : object.any (fun fiber => !fiber.saved) = true ↔ ∃ w, (views w).runs = true
  exec : ∀ w, (views w).exec = true → object.any (fun fiber => fiber.state = .exec) = true

namespace Lone

variable {ι : Type*} [DecidableEq ι] {views : ι → View} {object : Option Fiber} {w : ι}

omit [DecidableEq ι] in
/-- A worker with a fiber that has not ended is the only one. -/
theorem only (lone : Lone views object) (here : (views w).inside = true) {v : ι}
    (holds : (views v).holds = true) : v = w := by
  have going : spent object = false := by
    by_contra ended
    rw [Bool.not_eq_false] at ended
    rw [lone.ended ended w] at here
    cases here
  exact lone.alone going v w holds (View.holds_of_inside here)

/-- **A move of one worker.** It takes the fiber in hand only if nobody else has it or the fiber is
over, goes on to run it only if it is not over, and stays on its stack or leaves it. -/
theorem move (lone : Lone views object) {view : View} {object' : Option Fiber}
    (known : object'.isSome = true)
    (alone : spent object' = false → view.holds = true → ∀ v, v ≠ w → (views v).holds = false)
    (resumed : spent object = true → spent object' = true)
    (ended : spent object' = true → view.inside = false ∧ ∀ v, v ≠ w → (views v).inside = false)
    (one : view.runs = true → ∀ v, v ≠ w → (views v).runs = false)
    (saved : object'.any (fun fiber => !fiber.saved) = true ↔ view.runs = true ∨
      ∃ v, v ≠ w ∧ (views v).runs = true)
    (exec : view.exec = true → object'.any (fun fiber => fiber.state = .exec) = true)
    (others : ∀ v, v ≠ w → (views v).exec = true →
      object'.any (fun fiber => fiber.state = .exec) = true) :
    Lone (Function.update views w view) object' := by
  refine ⟨fun _ _ => known, ?_, ?_, ?_, ?_, ?_⟩
  · intro going v u first second
    by_cases isV : v = w
    · subst isV
      rw [Function.update_self] at first
      by_contra different
      rw [Function.update_of_ne (Ne.symm different),
        alone going first u (Ne.symm different)] at second
      cases second
    · rw [Function.update_of_ne isV] at first
      by_cases isU : u = w
      · subst isU
        rw [Function.update_self] at second
        rw [alone going second v isV] at first
        cases first
      · rw [Function.update_of_ne isU] at second
        refine lone.alone ?_ v u first second
        by_contra ended
        rw [Bool.not_eq_false] at ended
        rw [resumed ended] at going
        cases going
  · intro isOver v
    by_cases isV : v = w
    · subst isV
      rw [Function.update_self]
      exact (ended isOver).1
    · rw [Function.update_of_ne isV]
      exact (ended isOver).2 v isV
  · intro v u first second
    by_cases isV : v = w
    · subst isV
      rw [Function.update_self] at first
      by_contra different
      rw [Function.update_of_ne (Ne.symm different), one first u (Ne.symm different)] at second
      cases second
    · rw [Function.update_of_ne isV] at first
      by_cases isU : u = w
      · subst isU
        rw [Function.update_self] at second
        rw [one second v isV] at first
        cases first
      · rw [Function.update_of_ne isU] at second
        exact lone.one v u first second
  · rw [saved]
    constructor
    · rintro (here | ⟨v, isV, there⟩)
      · exact ⟨w, by rw [Function.update_self]; exact here⟩
      · exact ⟨v, by rw [Function.update_of_ne isV]; exact there⟩
    · rintro ⟨v, there⟩
      by_cases isV : v = w
      · subst isV
        rw [Function.update_self] at there
        exact Or.inl there
      · rw [Function.update_of_ne isV] at there
        exact Or.inr ⟨v, isV, there⟩
  · intro v marked
    by_cases isV : v = w
    · subst isV
      rw [Function.update_self] at marked
      exact exec marked
    · rw [Function.update_of_ne isV] at marked
      exact others v isV marked

omit [DecidableEq ι] in
/-- The fiber of a worker that is to run it has not ended. -/
theorem going (lone : Lone views object) (here : (views w).inside = true) : spent object = false := by
  by_contra ended
  rw [Bool.not_eq_false] at ended
  rw [lone.ended ended w] at here
  cases here

omit [DecidableEq ι] in
/-- Nobody else has the fiber of a worker that is to run it. -/
theorem others (lone : Lone views object) (here : (views w).inside = true) {v : ι} (isV : v ≠ w) :
    (views v).holds = false := by
  by_contra holds
  rw [Bool.not_eq_false] at holds
  exact isV (lone.only here holds)

/-- A scan takes the fiber. -/
theorem take (lone : Lone views object) (here : views w = .away) (known : object.isSome = true)
    (rest : spent object = true ∨ ∀ v, (views v).holds = false) :
    Lone (Function.update views w .taken) object := by
  refine lone.move known ?_ id ?_ nofun ?_ nofun ?_
  · intro going _ v _
    rcases rest with ended | free
    · rw [ended] at going
      cases going
    · exact free v
  · exact fun ended => ⟨rfl, fun v _ => lone.ended ended v⟩
  · rw [lone.saved]
    constructor
    · rintro ⟨v, runs⟩
      refine Or.inr ⟨v, ?_, runs⟩
      rintro rfl
      rw [here] at runs
      cases runs
    · rintro (taken | ⟨v, _, runs⟩)
      · cases taken
      · exact ⟨v, runs⟩
  · exact fun v _ marked => lone.exec v marked

/-- A worker goes on with the fiber, or drops it, and leaves the fiber as it is. -/
theorem proceed (lone : Lone views object) {old : View} (here : views w = old) (notAway : old ≠ .away)
    (view : View) (holds : view.holds = true → old.holds = true)
    (inside : view.inside = true → spent object = false) (runs : view.runs = old.runs)
    (exec : view.exec = true → old.exec = true) : Lone (Function.update views w view) object := by
  subst here
  refine lone.move (lone.known w notAway) ?_ id ?_ ?_ ?_ ?_ ?_
  · intro going held v isV
    by_contra other
    rw [Bool.not_eq_false] at other
    exact isV (lone.alone going v w other (holds held))
  · intro ended
    refine ⟨?_, fun v _ => lone.ended ended v⟩
    by_contra within
    rw [Bool.not_eq_false] at within
    rw [inside within] at ended
    cases ended
  · intro running v isV
    by_contra other
    rw [Bool.not_eq_false] at other
    exact isV (lone.one v w other (runs ▸ running))
  · rw [lone.saved, runs]
    constructor
    · rintro ⟨v, running⟩
      by_cases isV : v = w
      · subst isV
        exact Or.inl running
      · exact Or.inr ⟨v, isV, running⟩
    · rintro (running | ⟨v, _, running⟩)
      · exact ⟨w, running⟩
      · exact ⟨v, running⟩
  · exact fun marked => lone.exec w (exec marked)
  · exact fun v _ marked => lone.exec v marked

/-- **A worker alone with the fiber** changes its object and its own place. -/
theorem change (lone : Lone views object) (here : (views w).inside = true) (view : View)
    {object' : Option Fiber} (known : object'.isSome = true)
    (ended : spent object' = true → view.inside = false)
    (saved : object'.any (fun fiber => !fiber.saved) = true ↔ view.runs = true)
    (exec : view.exec = true → object'.any (fun fiber => fiber.state = .exec) = true) :
    Lone (Function.update views w view) object' := by
  have free {v : ι} (isV : v ≠ w) : (views v).holds = false := lone.others here isV
  have outside {v : ι} (isV : v ≠ w) : (views v).inside = false := by
    by_contra inside
    rw [Bool.not_eq_false] at inside
    exact Bool.false_ne_true ((free isV).symm.trans (View.holds_of_inside inside))
  have off {v : ι} (isV : v ≠ w) : (views v).runs = false := by
    by_contra runs
    rw [Bool.not_eq_false] at runs
    exact Bool.false_ne_true ((free isV).symm.trans (View.holds_of_runs runs))
  refine lone.move known (fun _ _ v isV => free isV) ?_ ?_ (fun _ v isV => off isV) ?_ exec ?_
  · intro isOver
    rw [lone.going here] at isOver
    cases isOver
  · exact fun isOver => ⟨ended isOver, fun v isV => outside isV⟩
  · rw [saved]
    refine ⟨Or.inl, Or.rec id ?_⟩
    rintro ⟨v, isV, runs⟩
    exact absurd ((off isV).symm.trans runs) Bool.false_ne_true
  · intro v isV marked
    exact absurd ((outside isV).symm.trans (View.inside_of_exec marked)) Bool.false_ne_true

/-- `swapIn` writes `EXEC`. -/
theorem mark (lone : Lone views object) (here : views w = .asserted) :
    Lone (Function.update views w .marked)
      (object.map fun fiber => { fiber with state := .exec }) := by
  have inside : (views w).inside = true := by
    rw [here]
    rfl
  have settled : object.any (fun fiber => !fiber.saved) ≠ true := by
    intro lost
    obtain ⟨v, runs⟩ := lone.saved.mp lost
    have isW := lone.only inside (View.holds_of_runs runs)
    rw [isW, here] at runs
    cases runs
  obtain ⟨fiber, rfl⟩ := Option.isSome_iff_exists.mp (lone.known w (by rw [here]; nofun))
  exact lone.change inside .marked rfl nofun (iff_of_false settled nofun) fun _ => rfl

/-- The switch to the fiber leaves its saved context behind. -/
theorem switch (lone : Lone views object) (here : views w = .marked) :
    Lone (Function.update views w .executing)
      (object.map fun fiber => { fiber with saved := false }) := by
  have inside : (views w).inside = true := by
    rw [here]
    rfl
  have going := lone.going inside
  have marked := lone.exec w (by rw [here]; rfl)
  obtain ⟨fiber, rfl⟩ := Option.isSome_iff_exists.mp (lone.known w (by rw [here]; nofun))
  refine lone.change inside .executing rfl ?_ (iff_of_true rfl rfl) fun _ => marked
  intro ended
  exact absurd (going.symm.trans ended) Bool.false_ne_true

/-- A yield, or the end of the fiber, changes `m_state` and leaves the context unsaved. -/
theorem leave (lone : Lone views object) (here : views w = .executing) (state : FiberState) :
    Lone (Function.update views w .leaving)
      (object.map fun fiber => { fiber with state := state }) := by
  have inside : (views w).inside = true := by
    rw [here]
    rfl
  have lost := lone.saved.mpr ⟨w, by rw [here]; rfl⟩
  obtain ⟨fiber, rfl⟩ := Option.isSome_iff_exists.mp (lone.known w (by rw [here]; nofun))
  exact lone.change inside .leaving rfl (fun _ => rfl) (iff_of_true lost rfl) nofun

/-- `swapOut` saves the context. -/
theorem save (lone : Lone views object) (here : views w = .leaving) :
    Lone (Function.update views w .after)
      (object.map fun fiber => { fiber with saved := true }) := by
  obtain ⟨fiber, rfl⟩ := Option.isSome_iff_exists.mp (lone.known w (by rw [here]; nofun))
  refine lone.move rfl nofun id ?_ nofun ?_ nofun ?_
  · exact fun ended => ⟨rfl, fun v _ => lone.ended ended v⟩
  · refine iff_of_false nofun (not_or.mpr ⟨nofun, ?_⟩)
    rintro ⟨v, isV, runs⟩
    exact isV (lone.one v w runs (by rw [here]; rfl))
  · exact fun v _ marked => lone.exec v marked

omit [DecidableEq ι] in
/-- Nobody is with a fiber that does not exist. -/
theorem views_of_none (lone : Lone views none) (v : ι) : views v = .away := by
  by_contra present
  exact Bool.false_ne_true (lone.known v present)

omit [DecidableEq ι] in
/-- A new fiber, as long as nobody is with it. -/
theorem fresh (lone : Lone views none) : Lone views (some { state := .init, saved := true }) := by
  have nobody := lone.views_of_none
  refine ⟨fun _ _ => rfl, ?_, nofun, lone.one, iff_of_false nofun ?_, ?_⟩
  · intro _ v _ holds
    rw [nobody v] at holds
    cases holds
  · rintro ⟨v, runs⟩
    rw [nobody v] at runs
    cases runs
  · intro v marked
    rw [nobody v] at marked
    cases marked

/-- A new fiber in the hands of the worker that made it. -/
theorem create (lone : Lone views none) (w : ι) :
    Lone (Function.update views w .entering) (some { state := .init, saved := true }) := by
  have nobody := lone.views_of_none
  refine lone.fresh.move rfl ?_ nofun nofun nofun (iff_of_false nofun (not_or.mpr ⟨nofun, ?_⟩)) nofun ?_
  · intro _ _ v _
    rw [nobody v]
    rfl
  · rintro ⟨v, _, runs⟩
    rw [nobody v] at runs
    cases runs
  · intro v _ marked
    rw [nobody v] at marked
    cases marked

omit [DecidableEq ι] in
/-- **The switch finds the context saved.** -/
theorem switch_saved (lone : Lone views object) (here : views w = .marked) :
    object.any Fiber.saved = true := by
  obtain ⟨fiber, rfl⟩ := Option.isSome_iff_exists.mp (lone.known w (by rw [here]; nofun))
  by_contra lost
  obtain ⟨v, runs⟩ := lone.saved.mp (by
    show (!fiber.saved) = true
    rw [Bool.not_eq_true']
    exact Bool.eq_false_iff.mpr lost)
  have isW := lone.only (w := w) (by rw [here]; rfl) (View.holds_of_runs runs)
  rw [isW, here] at runs
  cases runs

end Lone

/-! ### The scheduler -/

variable [DecidableEq φ]

namespace Worker

/-- The fiber that a worker is with, and where it is with it. -/
def fiber : Worker φ γ → Option (φ × View)
  | .taken (.fiber fiber) => some (fiber, .taken)
  | .entering fiber => some (fiber, .entering)
  | .asserted fiber => some (fiber, .asserted)
  | .marked fiber => some (fiber, .marked)
  | .executing fiber => some (fiber, .executing)
  | .leaving fiber => some (fiber, .leaving)
  | .back fiber | .released fiber | .requeue fiber => some (fiber, .after)
  | .top | .taken (.cb _) | .dead | .noTask | .idle | .idled | .done => none

/-- What the phase says about one fiber. -/
def view (fiber : φ) (worker : Worker φ γ) : View :=
  match worker.fiber with
  | some (other, view) => if other = fiber then view else .away
  | none => .away

/-- The worker runs on the fiber's stack: from the switch to it until its context is saved. -/
def executes (fiber : φ) (worker : Worker φ γ) : Bool := (worker.view fiber).runs

/-- The worker has the fiber in hand: from the scan until its context is saved. -/
def hasFiber (fiber : φ) (worker : Worker φ γ) : Bool := (worker.view fiber).holds

theorem view_self {worker : Worker φ γ} {fiber : φ} {view : View}
    (here : worker.fiber = some (fiber, view)) : worker.view fiber = view := by
  rw [Worker.view, here]
  exact if_pos rfl

theorem view_other {worker : Worker φ γ} {fiber other : φ} {view : View}
    (here : worker.fiber = some (other, view)) (distinct : fiber ≠ other) :
    worker.view fiber = .away := by
  rw [Worker.view, here]
  exact if_neg (Ne.symm distinct)

/-- A worker with the fiber in hand that does not run it yet is on its way to the switch. -/
theorem waits {worker : Worker φ γ} {fiber : φ} (holds : worker.hasFiber fiber = true)
    (idle : (worker.view fiber).runs = false) (unmarked : (worker.view fiber).exec = false) :
    worker = .taken (.fiber fiber) ∨ worker = .entering fiber ∨ worker = .asserted fiber := by
  have isFiber : worker.fiber = some (fiber, worker.view fiber) := by
    unfold hasFiber view at holds
    unfold view
    split at holds
    · rename_i other view here
      split at holds
      · rename_i same
        rw [here, same]
        exact congrArg some (congrArg (Prod.mk fiber) (if_pos rfl).symm)
      · cases holds
    · cases holds
  change (worker.view fiber).holds = true at holds
  generalize worker.view fiber = view at isFiber holds idle unmarked
  cases worker with
  | taken task =>
    cases task with
    | fiber other =>
      cases isFiber
      exact Or.inl rfl
    | cb cb => cases isFiber
  | entering other =>
    cases isFiber
    exact Or.inr (Or.inl rfl)
  | asserted other =>
    cases isFiber
    exact Or.inr (Or.inr rfl)
  | marked other =>
    cases isFiber
    cases unmarked
  | executing other =>
    cases isFiber
    cases idle
  | leaving other =>
    cases isFiber
    cases idle
  | back other | released other | requeue other =>
    cases isFiber
    cases holds
  | top | dead | noTask | idle | idled | done => cases isFiber

theorem view_none {worker : Worker φ γ} (here : worker.fiber = none) (fiber : φ) :
    worker.view fiber = .away := by
  rw [Worker.view, here]

end Worker

/-- Where the workers are with one fiber. -/
def views (sched : Scheduler n φ γ) (fiber : φ) : Fin n → View :=
  fun w => (sched.workers w).view fiber

/-- The invariant: each fiber is alone, and what is queued, or waits for an event, exists. -/
structure Sound (sched : Scheduler n φ γ) : Prop where
  lone : ∀ fiber, Lone (sched.views fiber) (sched.fibers fiber)
  queued : ∀ entry ∈ sched.queue, sched.known entry.ft.task = true
  waiting : ∀ task ∈ sched.waiting, sched.known task = true

variable {sched : Scheduler n φ γ} {w : Fin n} {phase : Worker φ γ}

theorem views_goto (sched : Scheduler n φ γ) (w : Fin n) (phase : Worker φ γ) (fiber : φ) :
    (sched.goto w phase).views fiber = Function.update (sched.views fiber) w (phase.view fiber) := by
  funext v
  by_cases isW : v = w
  · subst isW
    rw [Function.update_self]
    exact congrArg (Worker.view fiber) (Function.update_self ..)
  · rw [Function.update_of_ne isW]
    exact congrArg (Worker.view fiber) (Function.update_of_ne isW ..)

/-- A worker whose phases say the same about a fiber changes nothing for it. -/
theorem views_goto_same {fiber : φ} (same : phase.view fiber = (sched.workers w).view fiber) :
    (sched.goto w phase).views fiber = sched.views fiber := by
  rw [views_goto, same]
  exact Function.update_eq_self ..

/-- What exists goes on to exist. -/
theorem known_update {fiber : φ} {object : Option Fiber} (exists_ : object.isSome = true)
    {task : Task φ γ} (known : sched.known task = true) :
    { sched with fibers := Function.update sched.fibers fiber object }.known task = true := by
  cases task with
  | cb cb => rfl
  | fiber other =>
    show (Function.update sched.fibers fiber object other).isSome = true
    by_cases same : other = fiber
    · subst same
      rw [Function.update_self]
      exact exists_
    · rw [Function.update_of_ne same]
      exact known

/-- **A worker moves on with one fiber**, or with none, and leaves the fibers as they are. -/
theorem Sound.goto (sound : Sound sched) (fiber : φ)
    (others : ∀ other, other ≠ fiber → phase.view other = (sched.workers w).view other)
    (here : Lone (Function.update (sched.views fiber) w (phase.view fiber)) (sched.fibers fiber)) :
    Sound (sched.goto w phase) := by
  refine ⟨fun other => ?_, sound.queued, sound.waiting⟩
  by_cases same : other = fiber
  · subst same
    rw [views_goto]
    exact here
  · rw [views_goto_same (others other same)]
    exact sound.lone other

/-- **A worker moves on with one fiber and changes it.** -/
theorem Sound.change (sound : Sound sched) (fiber : φ) {object : Option Fiber}
    (exists_ : object.isSome = true)
    (others : ∀ other, other ≠ fiber → phase.view other = (sched.workers w).view other)
    (here : Lone (Function.update (sched.views fiber) w (phase.view fiber)) object) :
    Sound ({ sched with fibers := Function.update sched.fibers fiber object }.goto w phase) := by
  refine ⟨fun other => ?_, fun entry mem => known_update exists_ (sound.queued entry mem),
    fun task mem => known_update exists_ (sound.waiting task mem)⟩
  show Lone _ (Function.update sched.fibers fiber object other)
  by_cases same : other = fiber
  · subst same
    rw [views_goto, Function.update_self]
    exact here
  · show Lone ((sched.goto w phase).views other) _
    rw [views_goto_same (others other same), Function.update_of_ne same]
    exact sound.lone other

/-- A worker that is with no fiber before or after. -/
theorem Sound.stay (sound : Sound sched) {old : Worker φ γ} (here : sched.workers w = old)
    (phase : Worker φ γ) (before : old.fiber = none) (after : phase.fiber = none) :
    Sound (sched.goto w phase) := by
  subst here
  refine ⟨fun fiber => ?_, sound.queued, sound.waiting⟩
  rw [views_goto_same (by rw [Worker.view_none before, Worker.view_none after])]
  exact sound.lone fiber

/-- The counters are none of the fibers' business. -/
theorem Sound.counters (sound : Sound sched) (active idle : Nat)
    (idleEnded : Fin n → Bool) :
    Sound { sched with active := active, idle := idle, idleEnded := idleEnded } :=
  ⟨sound.lone, sound.queued, sound.waiting⟩

namespace Worker

/-- The worker is with this fiber or with none. -/
def Only (fiber : φ) (worker : Worker φ γ) : Prop := ∀ other, other ≠ fiber → worker.view other = .away

theorem only_of_some {worker : Worker φ γ} {fiber : φ} {view : View}
    (here : worker.fiber = some (fiber, view)) : worker.Only fiber :=
  fun _ distinct => view_other here distinct

theorem only_of_none {worker : Worker φ γ} (here : worker.fiber = none) (fiber : φ) :
    worker.Only fiber :=
  fun other _ => view_none here other

end Worker

/-- A worker that is with one fiber goes on with it, or leaves it, and leaves it as it is. -/
theorem Sound.proceed (sound : Sound sched) {old : Worker φ γ} (here : sched.workers w = old)
    {fiber : φ} {view : View} (before : old.fiber = some (fiber, view)) (notAway : view ≠ .away)
    (phase : Worker φ γ) (only : phase.Only fiber) {view' : View} (now : phase.view fiber = view')
    (holds : view'.holds = true → view.holds = true)
    (inside : view'.inside = true → spent (sched.fibers fiber) = false)
    (runs : view'.runs = view.runs) (exec : view'.exec = true → view.exec = true) :
    Sound (sched.goto w phase) := by
  subst here now
  refine sound.goto fiber (fun other distinct => ?_) ?_
  · rw [only other distinct, Worker.view_other before distinct]
  · exact (sound.lone fiber).proceed (Worker.view_self before) notAway _ holds inside runs exec

/-- The fiber that a worker is with exists. -/
theorem Sound.known_of_fiber (sound : Sound sched) {old : Worker φ γ} (here : sched.workers w = old)
    {fiber : φ} {view : View} (before : old.fiber = some (fiber, view)) (notAway : view ≠ .away) :
    (sched.fibers fiber).isSome = true := by
  subst here
  refine (sound.lone fiber).known w ?_
  show (sched.workers w).view fiber ≠ .away
  rw [Worker.view_self before]
  exact notAway

/-- A worker that is with one fiber goes on with it and changes it. -/
theorem Sound.advance (sound : Sound sched) {old : Worker φ γ} (here : sched.workers w = old)
    {fiber : φ} {view view' : View} (before : old.fiber = some (fiber, view)) (notAway : view ≠ .away)
    (change : Fiber → Fiber) (phase : Worker φ γ) (after : phase.fiber = some (fiber, view'))
    (lone : sched.views fiber w = view →
      Lone (Function.update (sched.views fiber) w view') ((sched.fibers fiber).map change)) :
    Sound ({ sched with
      fibers :=
        Function.update sched.fibers fiber ((sched.fibers fiber).map change) }.goto w phase) := by
  have exists_ := sound.known_of_fiber here before notAway
  subst here
  refine sound.change fiber (by rwa [Option.isSome_map]) (fun other distinct => ?_) ?_
  · rw [Worker.view_other after distinct, Worker.view_other before distinct]
  · rw [Worker.view_self after]
    exact lone (Worker.view_self before)

/-- A push of tasks that exist. -/
theorem Sound.pushing (sound : Sound sched) (fts : List (Option (FiberAndThread φ γ)))
    (known : ∀ ft ∈ fts.reduceOption, sched.known ft.task = true) : Sound (sched.pushing fts).1 := by
  rw [Scheduler.pushing, scheduleRange_eq]
  refine ⟨sound.lone, fun entry mem => ?_, sound.waiting⟩
  rcases List.mem_append.mp mem with mem | mem
  · exact sound.queued entry mem
  · refine known entry.ft ?_
    rw [← map_ft_numbered fts sched.nextId]
    exact List.mem_map_of_mem mem

/-! ### Steps -/

/-- The task that a scan takes. -/
def scanned (sched : Scheduler n φ γ) (w : Fin n) : Option (Task φ γ) :=
  (scanFibers sched.isExec w sched.queue).map fun found => found.1.ft.task

/-- No worker has the task in hand, or it is a fiber that has ended. -/
def Rests (sched : Scheduler n φ γ) : Option (Task φ γ) → Prop
  | some (.fiber fiber) =>
    spent (sched.fibers fiber) = true ∨ ∀ v, (sched.workers v).hasFiber fiber = false
  | some (.cb _) | none => True

/-- **The fiber that the scan takes is at rest.** -/
def AtRest (sched : Scheduler n φ γ) (w : Fin n) : Prop := sched.Rests (sched.scanned w)

/-- When a step is safe: a scan takes a fiber at rest. -/
def Restful (sched : Scheduler n φ γ) : Label n φ γ → Prop
  | .scan w => sched.AtRest w
  | _ => True

instance (sched : Scheduler n φ γ) : (task : Option (Task φ γ)) → Decidable (sched.Rests task)
  | some (.fiber _) => inferInstanceAs (Decidable (_ ∨ ∀ _, _))
  | some (.cb _) | none => .isTrue trivial

instance (sched : Scheduler n φ γ) : (label : Label n φ γ) → Decidable (sched.Restful label)
  | .scan _ => inferInstanceAs (Decidable (Rests ..))
  | .newFiber _ | .schedule .. | .scheduleRange _ | .triggerEvent _ | .stop | .check _ | .create ..
  | .swapIn _ | .setExec _ | .switch _ | .addEvent .. | .yield .. | .finish .. | .swapOut _
  | .release _ | .getState _ | .requeue _ | .enterIdle _ | .leaveIdle .. | .afterIdle _ =>
    .isTrue trivial

theorem new_sound (n : Nat) : Sound (new n : Scheduler n φ γ) :=
  ⟨fun _ => ⟨nofun, nofun, nofun, nofun, iff_of_false nofun nofun, nofun⟩, nofun, nofun⟩

theorem newFiber_sound (sound : Sound sched) {fiber : φ} (fresh : sched.fibers fiber = none) :
    Sound (sched.addFiber fiber) := by
  refine ⟨fun other => ?_, fun entry mem => known_update rfl (sound.queued entry mem),
    fun task mem => known_update rfl (sound.waiting task mem)⟩
  show Lone (sched.views other) (Function.update sched.fibers fiber _ other)
  by_cases same : other = fiber
  · subst same
    rw [Function.update_self]
    exact (fresh ▸ sound.lone other).fresh
  · rw [Function.update_of_ne same]
    exact sound.lone other

/-- **A scan** that takes a fiber at rest. -/
theorem Sound.take (sound : Sound sched) (here : sched.workers w = .top) (rest : sched.AtRest w)
    {entry : Entry φ γ} {left : List (Entry φ γ)}
    (found : scanFibers sched.isExec w sched.queue = some (entry, left)) :
    Sound ({ sched with queue := left, active := sched.active + 1 }.goto w
      (.taken entry.ft.task)) := by
  obtain ⟨front, back, split, rfl, _, _⟩ := scanFibers_eq_some.mp found
  have known := sound.queued entry (by rw [split]; exact List.mem_append_cons_self)
  have smaller : Sound { sched with queue := front ++ back, active := sched.active + 1 } := by
    refine ⟨sound.lone, fun other mem => sound.queued other ?_, sound.waiting⟩
    rw [split]
    exact List.mem_append.mpr ((List.mem_append.mp mem).imp_right (List.mem_cons_of_mem _))
  rw [AtRest, scanned, found, Option.map_some] at rest
  obtain ⟨id, ⟨task, thread⟩⟩ := entry
  cases task with
  | cb cb => exact smaller.stay here (.taken (.cb cb)) rfl rfl
  | fiber fiber =>
    refine smaller.goto fiber (fun other distinct => ?_) ?_
    · show Worker.view other (Worker.taken (.fiber fiber)) = (sched.workers w).view other
      rw [here]
      exact (Worker.view_other rfl distinct).trans (Worker.view_none rfl other).symm
    · rw [Worker.view_self rfl]
      refine (sound.lone fiber).take ?_ known rest
      show (sched.workers w).view fiber = .away
      rw [here]
      rfl

theorem workerStep_sound (sound : Sound sched) {label : Label n φ γ} (own : label.worker = some w)
    (restful : sched.Restful label) {next : Scheduler n φ γ × Output n φ}
    (stepped : sched.workerStep label (sched.workers w) = some next) : Sound next.1 := by
  generalize here : sched.workers w = phase at stepped
  cases workerStep_cases own stepped with
  | scanNone => exact sound.stay here .noTask rfl rfl
  | scan found => exact sound.take here restful found
  | checkEnded =>
      exact sound.proceed here rfl nofun .dead (Worker.only_of_none rfl _) (Worker.view_none rfl _)
        nofun nofun rfl nofun
  | check going =>
      exact sound.proceed here rfl nofun (.entering _) (Worker.only_of_some rfl)
        (Worker.view_self rfl) (fun _ => rfl) (fun _ => going) rfl nofun
  -- a callback gets a fiber of its own
  | @create fiber cb absent =>
      refine sound.change fiber rfl (fun other distinct => ?_) ?_
      · rw [here]
        exact (Worker.view_other rfl distinct).trans (Worker.view_none rfl other).symm
      · rw [Worker.view_self rfl]
        exact (absent ▸ sound.lone fiber).create w
  | swapInEnded =>
      exact sound.proceed here rfl nofun (.back _) (Worker.only_of_some rfl) (Worker.view_self rfl)
        nofun nofun rfl nofun
  | swapIn _ going =>
      exact sound.proceed here rfl nofun (.asserted _) (Worker.only_of_some rfl)
        (Worker.view_self rfl) (fun _ => rfl) (fun _ => going) rfl nofun
  | setExec => exact sound.advance here rfl nofun _ (.marked _) rfl (sound.lone _).mark
  | switch => exact sound.advance here rfl nofun _ (.executing _) rfl (sound.lone _).switch
  -- the task of an event is a callback or the fiber that runs
  | @addEvent fiber cb =>
      refine ⟨sound.lone, sound.queued, List.forall_mem_cons.mpr ⟨?_, sound.waiting⟩⟩
      cases cb with
      | none => exact sound.known_of_fiber here rfl nofun
      | some cb => rfl
  | yield =>
      exact sound.advance here rfl nofun _ (.leaving _) rfl fun now => (sound.lone _).leave now _
  | finish =>
      exact sound.advance here rfl nofun _ (.leaving _) rfl fun now => (sound.lone _).leave now _
  | swapOut => exact sound.advance here rfl nofun _ (.back _) rfl (sound.lone _).save
  | release =>
      exact (sound.counters (decrement sched.active) sched.idle sched.idleEnded).proceed here rfl
        nofun (.released _) (Worker.only_of_some rfl) (Worker.view_self rfl) nofun nofun rfl nofun
  | releaseDead =>
      exact (sound.counters (decrement sched.active) sched.idle sched.idleEnded).stay here .top rfl
        rfl
  | getReady =>
      exact sound.proceed here rfl nofun (.requeue _) (Worker.only_of_some rfl)
        (Worker.view_self rfl) nofun nofun rfl nofun
  | getState =>
      exact sound.proceed here rfl nofun .top (Worker.only_of_none rfl _) (Worker.view_none rfl _)
        nofun nofun rfl nofun
  | requeue =>
      have exists_ := sound.known_of_fiber here rfl nofun
      refine Sound.pushing (sound.proceed here rfl nofun .top (Worker.only_of_none rfl _)
        (Worker.view_none rfl _) nofun nofun rfl nofun) _ ?_
      rw [List.reduceOption_cons_of_some, List.reduceOption_nil]
      exact List.forall_mem_cons.mpr ⟨exists_, nofun⟩
  | leaveLoop => exact sound.stay here .done rfl rfl
  | enterIdle =>
      exact (sound.counters sched.active (sched.idle + 1) sched.idleEnded).stay here .idle rfl rfl
  | endIdle =>
      exact (sound.counters sched.active sched.idle (Function.update sched.idleEnded w true)).stay
        here .idled rfl rfl
  | leaveIdle => exact sound.stay here .idled rfl rfl
  | afterIdle =>
      exact (sound.counters sched.active (decrement sched.idle) sched.idleEnded).stay here .top rfl
        rfl

variable [DecidableEq γ]

theorem callerStep_sound (sound : Sound sched) {label : Label n φ γ}
    {next : Scheduler n φ γ × Output n φ} (stepped : sched.callerStep label = some next) :
    Sound next.1 := by
  cases callerStep_cases stepped with
  | newFiber absent => exact newFiber_sound sound absent
  | schedule known =>
      refine sound.pushing _ fun ft mem => ?_
      rw [List.reduceOption_mem_iff, List.mem_singleton] at mem
      obtain ⟨task, isTask, rfl⟩ := Option.map_eq_some_iff.mp mem.symm
      exact known task isTask
  | scheduleRange known =>
      refine sound.pushing _ fun ft mem => ?_
      rw [List.reduceOption_mem_iff, List.mem_map] at mem
      obtain ⟨_, mem, isSome⟩ := mem
      obtain ⟨task, rfl, rfl⟩ := Option.map_eq_some_iff.mp isSome
      exact known task mem
  | @triggerEvent task waits =>
      have fewer : Sound { sched with waiting := sched.waiting.erase task } :=
        ⟨sound.lone, sound.queued, fun other mem => sound.waiting other (List.mem_of_mem_erase mem)⟩
      refine fewer.pushing _ fun ft isTask => ?_
      rw [List.reduceOption_mem_iff, List.mem_singleton] at isTask
      cases isTask
      exact sound.waiting task waits
  | stop => exact ⟨sound.lone, sound.queued, sound.waiting⟩

/-- **Every step keeps the invariant**, if its scan takes a fiber at rest. -/
theorem step_sound (sound : Sound sched) (label : Label n φ γ) (restful : sched.Restful label)
    {next : Scheduler n φ γ × Output n φ} (stepped : sched.step label = some next) :
    Sound next.1 := by
  unfold step at stepped
  split at stepped
  · exact callerStep_sound sound stepped
  · rename_i own
    exact workerStep_sound sound own restful stepped

/-! ### Runs -/

/-- No fiber runs on two workers. -/
def Exclusive (sched : Scheduler n φ γ) : Prop :=
  ∀ fiber v w, (sched.workers v).executes fiber = true → (sched.workers w).executes fiber = true →
    v = w

/-- The output is no switch to a fiber whose context is not saved. -/
def SavedSwitch : Output n φ → Prop
  | .switched _ _ saved => saved = true
  | .silent | .pushed _ | .took .. => True

omit [DecidableEq γ] in
/-- A switch finds the context saved. -/
theorem workerStep_saved (sound : Sound sched) {label : Label n φ γ} (own : label.worker = some w)
    {next : Scheduler n φ γ × Output n φ}
    (stepped : sched.workerStep label (sched.workers w) = some next) : SavedSwitch next.2 := by
  generalize here : sched.workers w = phase at stepped
  cases workerStep_cases own stepped with
  | switch =>
      refine (sound.lone _).switch_saved (w := w) ?_
      rw [views, here]
      exact Worker.view_self rfl
  | _ => exact trivial

theorem callerStep_saved {label : Label n φ γ} {next : Scheduler n φ γ × Output n φ}
    (stepped : sched.callerStep label = some next) : SavedSwitch next.2 := by
  cases callerStep_cases stepped <;> exact trivial

theorem step_saved (sound : Sound sched) {label : Label n φ γ}
    {next : Scheduler n φ γ × Output n φ} (stepped : sched.step label = some next) :
    SavedSwitch next.2 := by
  unfold step at stepped
  split at stepped
  · exact callerStep_saved stepped
  · rename_i own
    exact workerStep_saved sound own stepped

omit [DecidableEq γ] in
theorem Sound.exclusive (sound : Sound sched) : Exclusive sched :=
  fun fiber v w first second => (sound.lone fiber).one v w first second

/-- What a run keeps whose scans take fibers at rest. -/
theorem run_sound {labels : List (Label n φ γ)} {outputs : List (Output n φ)}
    (restful : Meets step Restful (new n) labels)
    (executed : trace step (new n) labels = some (sched, outputs)) :
    Sound sched ∧ ∀ output ∈ outputs, SavedSwitch output :=
  trace_meets_shows Restful
    (fun _ label _ sound restful stepped =>
      ⟨step_sound sound label restful stepped, step_saved sound stepped⟩)
    labels (new_sound n) restful executed

/-! ### A scan that takes a fiber not at rest -/

omit [DecidableEq φ] [DecidableEq γ] in
theorem goto_goto (sched : Scheduler n φ γ) (w : Fin n) (first second : Worker φ γ) :
    (sched.goto w first).goto w second = sched.goto w second := by
  unfold goto
  dsimp only
  rw [Function.update_idem]

theorem check_step {fiber : φ} (here : sched.workers w = .taken (.fiber fiber))
    (going : sched.ended fiber = false) :
    sched.step (.check w) = some (sched.goto w (.entering fiber), .silent) := by
  show sched.workerStep (.check w) (sched.workers w) = _
  rw [here, workerStep, going]
  rfl

theorem swapIn_step {fiber : φ} (here : sched.workers w = .entering fiber)
    (still : sched.hasState fiber .exec = false) (going : sched.ended fiber = false) :
    sched.step (.swapIn w) = some (sched.goto w (.asserted fiber), .silent) := by
  show sched.workerStep (.swapIn w) (sched.workers w) = _
  rw [here, workerStep, still, going]
  rfl

theorem setExec_step {fiber : φ} (here : sched.workers w = .asserted fiber) :
    sched.step (.setExec w) = some ((sched.setState fiber .exec).goto w (.marked fiber), .silent) := by
  show sched.workerStep (.setExec w) (sched.workers w) = _
  rw [here]
  rfl

theorem switch_step {fiber : φ} (here : sched.workers w = .marked fiber) :
    sched.step (.switch w) = some ((sched.setSaved fiber false).goto w (.executing fiber),
      .switched w fiber ((sched.fibers fiber).any Fiber.saved)) := by
  show sched.workerStep (.switch w) (sched.workers w) = _
  rw [here]
  rfl

/-- A worker with a fiber that neither runs nor has ended gets past the assertion of `swapIn`. -/
theorem reach_asserted {fiber : φ} (still : sched.hasState fiber .exec = false)
    (going : sched.ended fiber = false)
    (here : sched.workers w = .taken (.fiber fiber) ∨ sched.workers w = .entering fiber ∨
      sched.workers w = .asserted fiber) :
    ∃ labels final outputs, trace step sched labels = some (final, outputs) ∧
      final.workers = Function.update sched.workers w (.asserted fiber) ∧
      final.fibers = sched.fibers := by
  rcases here with taken | entering | asserted
  · have there : (sched.goto w (.entering fiber)).workers w = .entering fiber :=
      Function.update_self ..
    have entered := swapIn_step there still going
    rw [goto_goto] at entered
    exact ⟨[.check w, .swapIn w], _, _, trace_cons_eq_some.mpr ⟨_, _, _, check_step taken going,
      trace_cons_eq_some.mpr ⟨_, _, _, entered, rfl, rfl⟩, rfl⟩, rfl, rfl⟩
  · exact ⟨[.swapIn w], _, _,
      trace_cons_eq_some.mpr ⟨_, _, _, swapIn_step entering still going, rfl, rfl⟩, rfl, rfl⟩
  · exact ⟨[], sched, [], rfl, by rw [← asserted, Function.update_eq_self], rfl⟩

/-- A worker past the assertion of `swapIn` writes `EXEC` and switches, whatever the others do. -/
theorem asserted_runs {fiber : φ} {object : Fiber} (here : sched.workers w = .asserted fiber)
    (isObject : sched.fibers fiber = some object) :
    ∃ final : Scheduler n φ γ, trace step sched [.setExec w, .switch w] =
        some (final, [.silent, .switched w fiber object.saved]) ∧
      final.workers = Function.update sched.workers w (.executing fiber) ∧
      final.fibers fiber = some { state := .exec, saved := false } := by
  have marked : ((sched.setState fiber .exec).goto w (.marked fiber)).workers w = .marked fiber :=
    Function.update_self ..
  have object' : ((sched.setState fiber .exec).goto w (.marked fiber)).fibers fiber =
      some { object with state := .exec } := by
    show Function.update sched.fibers fiber _ fiber = _
    rw [Function.update_self, isObject]
    rfl
  have second := switch_step marked
  rw [object'] at second
  refine ⟨_, trace_cons_eq_some.mpr ⟨_, _, _, setExec_step here,
    trace_cons_eq_some.mpr ⟨_, _, _, second, rfl, rfl⟩, rfl⟩, ?_, ?_⟩
  · rw [setSaved]
    dsimp only [goto]
    exact Function.update_idem ..
  · show Function.update _ fiber _ fiber = _
    rw [Function.update_self, object']
    rfl

omit [DecidableEq γ] in
theorem not_atRest (restless : ¬ sched.AtRest w) :
    ∃ fiber v, sched.scanned w = some (.fiber fiber) ∧ spent (sched.fibers fiber) = false ∧
      (sched.workers v).hasFiber fiber = true := by
  unfold AtRest Rests at restless
  split at restless
  · rename_i fiber taken
    rw [not_or, not_forall, Bool.not_eq_true] at restless
    obtain ⟨going, v, holds⟩ := restless
    exact ⟨fiber, v, taken, going, (Bool.not_eq_false _).mp holds⟩
  · exact absurd trivial restless
  · exact absurd trivial restless

/-- The scan that takes a fiber. -/
theorem scan_step {fiber : φ} (taken : sched.scanned w = some (.fiber fiber))
    {next : Scheduler n φ γ × Output n φ} (stepped : sched.step (.scan w) = some next) :
    sched.workers w = .top ∧ sched.hasState fiber .exec = false ∧
      next.1.workers = Function.update sched.workers w (.taken (.fiber fiber)) ∧
      next.1.fibers = sched.fibers := by
  obtain ⟨⟨entry, left⟩, found, isFiber⟩ := Option.map_eq_some_iff.mp taken
  obtain ⟨_, _, _, _, runs, _⟩ := scanFibers_eq_some.mp found
  have still := (mayRun_iff.mp runs).2
  dsimp only at isFiber
  rw [isFiber] at still
  change sched.workerStep (.scan w) (sched.workers w) = some next at stepped
  generalize here : sched.workers w = phase at stepped
  cases workerStep_cases rfl stepped with
  | scanNone nothing =>
      rw [nothing] at found
      cases found
  | scan found' =>
      rw [found'] at found
      cases found
      exact ⟨rfl, Bool.eq_false_iff.mpr still, by rw [← isFiber]; rfl, rfl⟩

/-- **Once a scan takes a fiber that is not at rest, the run can go on** to switch to the fiber while
its context is not saved and another worker runs on it. -/
theorem scan_breaks (sound : Sound sched) (restless : ¬ sched.AtRest w)
    {next : Scheduler n φ γ × Output n φ} (stepped : sched.step (.scan w) = some next) :
    ∃ labels final outputs fiber, trace step next.1 labels = some (final, outputs) ∧
      .switched w fiber false ∈ outputs ∧ ¬ Exclusive final := by
  obtain ⟨fiber, v, taken, going, holds⟩ := not_atRest restless
  obtain ⟨atTop, still, workers, fibers⟩ := scan_step taken stepped
  have distinct : v ≠ w := by
    rintro rfl
    rw [atTop] at holds
    cases holds
  obtain ⟨object, isObject⟩ : ∃ object, sched.fibers fiber = some object := by
    refine Option.isSome_iff_exists.mp ((sound.lone fiber).known v ?_)
    intro away
    rw [Worker.hasFiber, ← views, away] at holds
    cases holds
  -- the worker that scanned comes past the assertion of `swapIn`
  have still' : next.1.hasState fiber .exec = false := by
    rw [hasState, fibers]
    exact still
  have going' : next.1.ended fiber = false := by
    rw [ended, fibers]
    exact going
  have taken' : next.1.workers w = .taken (.fiber fiber) := by
    rw [workers, Function.update_self]
  obtain ⟨first, middle, firstOut, passed, phases, sameFibers⟩ :=
    reach_asserted still' going' (Or.inl taken')
  have asserted : middle.workers w = .asserted fiber := by
    rw [phases, Function.update_self]
  have other : middle.workers v = sched.workers v := by
    rw [phases, Function.update_of_ne distinct, workers, Function.update_of_ne distinct]
  have same : middle.fibers = sched.fibers := sameFibers.trans fibers
  by_cases leaves : ((sched.workers v).view fiber).runs = true
  · -- it switches while the other worker is between the two steps of its yield
    have lost := (sound.lone fiber).saved.mpr ⟨v, leaves⟩
    rw [isObject] at lost
    have unsaved : object.saved = false := (Bool.not_eq_true' _).mp lost
    obtain ⟨final, ran, moved, _⟩ := asserted_runs asserted (same ▸ isObject)
    rw [unsaved] at ran
    refine ⟨_, final, _, fiber, trace_append_eq_some.mpr ⟨_, _, _, passed, ran, rfl⟩,
      List.mem_append_right _ (List.mem_cons_of_mem _ List.mem_cons_self), ?_⟩
    intro exclusive
    refine distinct (exclusive fiber v w ?_ ?_)
    · rw [moved, Function.update_of_ne distinct, other]
      exact leaves
    · rw [moved, Function.update_self, Worker.executes, Worker.view_self rfl]
      rfl
  · -- the other worker comes past the assertion as well; then both switch
    rw [Bool.not_eq_true] at leaves
    have unmarked : ((sched.workers v).view fiber).exec = false := by
      by_contra exec
      rw [Bool.not_eq_false] at exec
      rw [hasState, (sound.lone fiber).exec v exec] at still
      cases still
    have waiting := Worker.waits holds leaves unmarked
    rw [← other] at waiting
    have still'' : middle.hasState fiber .exec = false := by
      rw [hasState, same]
      exact still
    have going'' : middle.ended fiber = false := by
      rw [ended, same]
      exact going
    obtain ⟨second, both, secondOut, passed', phases', sameFibers'⟩ :=
      reach_asserted still'' going'' waiting
    have ready : both.workers v = .asserted fiber := by
      rw [phases', Function.update_self]
    have isObject' : both.fibers fiber = some object := by
      rw [sameFibers', same, isObject]
    obtain ⟨running, ran, moved, left⟩ := asserted_runs ready isObject'
    have asserted' : running.workers w = .asserted fiber := by
      rw [moved, Function.update_of_ne distinct.symm, phases', Function.update_of_ne distinct.symm,
        asserted]
    obtain ⟨final, ran', moved', _⟩ := asserted_runs asserted' left
    refine ⟨_, final, _, fiber, trace_append_eq_some.mpr ⟨_, _, _, passed,
      trace_append_eq_some.mpr ⟨_, _, _, passed',
        trace_append_eq_some.mpr ⟨_, _, _, ran, ran', rfl⟩, rfl⟩, rfl⟩, ?_, ?_⟩
    · refine List.mem_append_right _ (List.mem_append_right _ (List.mem_append_right _ ?_))
      exact List.mem_cons_of_mem _ List.mem_cons_self
    · intro exclusive
      refine distinct (exclusive fiber v w ?_ ?_)
      · rw [moved', Function.update_of_ne distinct, moved, Function.update_self, Worker.executes,
          Worker.view_self rfl]
        rfl
      · rw [moved', Function.update_self, Worker.executes, Worker.view_self rfl]
        rfl

/-- **When no fiber runs on two workers.** In a run whose scans take fibers at rest, no fiber runs on
two workers and each switch finds the context saved; and as soon as a scan takes a fiber that is not
at rest, the run can go on to break both. -/
theorem exclusive_iff_at_rest {labels : List (Label n φ γ)} {outputs : List (Output n φ)}
    (restful : Meets step Restful (new n) labels)
    (executed : trace step (new n) labels = some (sched, outputs)) :
    (Exclusive sched ∧ ∀ output ∈ outputs, SavedSwitch output) ∧
    ∀ w next, sched.step (.scan w) = some next → ¬ sched.AtRest w →
      ∃ labels final outputs fiber, trace step next.1 labels = some (final, outputs) ∧
        .switched w fiber false ∈ outputs ∧ ¬ Exclusive final := by
  obtain ⟨sound, saved⟩ := run_sound restful executed
  exact ⟨⟨sound.exclusive, saved⟩, fun w next stepped restless => scan_breaks sound restless stepped⟩

/-- A fiber registers an event and yields; the event fires when its context is saved, and another
worker goes on with it. -/
theorem exclusive_iff_at_rest_saved :
    ∃ sched outputs, trace step (new 2 : Scheduler 2 Nat Nat)
        [.newFiber 7, .schedule (some (.fiber 7)) none, .scan 0, .check 0, .swapIn 0, .setExec 0,
          .switch 0, .addEvent 0 none, .yield 0 false, .swapOut 0, .triggerEvent (.fiber 7), .scan 1,
          .check 1, .swapIn 1, .setExec 1, .switch 1] = some (sched, outputs) ∧
      Exclusive sched ∧ (sched.workers 1).executes 7 = true := by
  have executed : trace step (new 2 : Scheduler 2 Nat Nat)
      [.newFiber 7, .schedule (some (.fiber 7)) none, .scan 0, .check 0, .swapIn 0, .setExec 0,
        .switch 0, .addEvent 0 none, .yield 0 false, .swapOut 0, .triggerEvent (.fiber 7), .scan 1,
        .check 1, .swapIn 1, .setExec 1, .switch 1] = some (_, _) := rfl
  exact ⟨_, _, executed, (exclusive_iff_at_rest (by decide +kernel) executed).1.1, rfl⟩

/-- **A fiber is switched to before its context is saved.** The event fires on a third worker between
the two steps of `YeildToHold`; a second worker takes the fiber, whose state is `HOLD`, and runs it
beside the first one. -/
theorem switched_before_saved :
    ∃ sched outputs, trace step (new 3 : Scheduler 3 Nat Nat)
        [.scan 2, .enterIdle 2, .newFiber 7, .schedule (some (.fiber 7)) none, .scan 0, .check 0,
          .swapIn 0, .setExec 0, .switch 0, .addEvent 0 none, .yield 0 false,
          .triggerEvent (.fiber 7), .scan 1, .check 1, .swapIn 1, .setExec 1, .switch 1] =
        some (sched, outputs) ∧
      (¬ ∀ output ∈ outputs, SavedSwitch output) ∧ ¬ Exclusive sched := by
  refine ⟨_, _, rfl, fun saved => ?_, fun exclusive => ?_⟩
  · exact Bool.false_ne_true (saved (.switched 1 7 false) (by decide +kernel))
  · exact absurd (exclusive 7 0 1 rfl rfl) (by decide)

end Wyze.Scheduler
