/-
**When a task stays on the thread it was scheduled for.**

The thread id of `schedule(task, thread)` is kept in the entry of `m_fibers` and nowhere else: `run`
schedules a fiber that came back `READY` again without it, and so does an event. `Tracked` runs the
scheduler beside a record of the threads that were asked for each fiber, where a callback's thread is
that of the fiber made for it.

* `KeepsPins`: a step that queues such a fiber asks for the same thread again.
* `Pinned`: then its entries carry the thread, and only that worker is on its way to it.
* `pinned_while_kept`: in a run of such steps, every switch to the fiber is by the worker asked for.
* `pin_lost`: one `YeildToReady`, and another worker goes on with it.
-/
import Wyze.Scheduler.Accounts

namespace Wyze.Scheduler

open Labelled

variable {n : Nat} {φ γ : Type*}

namespace Worker

/-- The fiber that a worker is on its way to switch to. -/
def aim : Worker φ γ → Option φ
  | .taken (.fiber fiber) | .entering fiber | .asserted fiber | .marked fiber => some fiber
  | .taken (.cb _) | .top | .executing _ | .leaving _ | .back _ | .released _ | .requeue _ | .dead
  | .noTask | .idle | .idled | .done => none

/-- The fiber that a worker names. -/
def names : Worker φ γ → Option φ
  | .taken (.fiber fiber) | .entering fiber | .asserted fiber | .marked fiber | .executing fiber
  | .leaving fiber | .back fiber | .released fiber | .requeue fiber => some fiber
  | .taken (.cb _) | .top | .dead | .noTask | .idle | .idled | .done => none

end Worker

/-! ### The threads asked for -/

/-- The scheduler, the threads asked for each fiber, and the thread of the entry that each worker took
last. -/
structure Tracked (n : Nat) (φ γ : Type*) where
  sched : Scheduler n φ γ
  pins : φ → List Nat
  hand : Fin n → Option Nat

namespace Tracked

def new (n : Nat) : Tracked n φ γ :=
  { sched := .new n, pins := fun _ => [], hand := fun _ => none }

variable [DecidableEq φ]

/-- `schedule` with a thread asks for it; a callback's fiber inherits the thread of its entry. -/
def pinsAfter (tracked : Tracked n φ γ) : Label n φ γ → φ → List Nat
  | .schedule (some (.fiber fiber)) (some thread) =>
    Function.update tracked.pins fiber (thread :: tracked.pins fiber)
  | .create w fiber => Function.update tracked.pins fiber (tracked.hand w).toList
  | _ => tracked.pins

/-- A scan takes an entry with its thread. -/
def handAfter (tracked : Tracked n φ γ) : Label n φ γ → Fin n → Option Nat
  | .scan w => Function.update tracked.hand w
    ((scanFibers tracked.sched.isExec w tracked.sched.queue).bind fun found => found.1.ft.thread)
  | _ => tracked.hand

variable [DecidableEq γ]

/-- A step of the scheduler, recorded. -/
def step (tracked : Tracked n φ γ) (label : Label n φ γ) : Option (Tracked n φ γ × Output n φ) :=
  (tracked.sched.step label).map fun next =>
    ({ sched := next.1, pins := tracked.pinsAfter label, hand := tracked.handAfter label }, next.2)

theorem step_project (tracked : Tracked n φ γ) (label : Label n φ γ) :
    (tracked.step label).map (fun next => (next.1.sched, next.2)) = tracked.sched.step label := by
  rw [step, Option.map_map]
  cases tracked.sched.step label <;> rfl

/-- **The record changes nothing**: the runs of the scheduler are those of the tracked one. -/
theorem trace_step (labels : List (Label n φ γ)) (tracked : Tracked n φ γ) :
    (trace step tracked labels).map (fun result => (result.1.sched, result.2)) =
      trace Scheduler.step tracked.sched labels :=
  trace_project Tracked.sched step_project labels tracked

end Tracked

/-! ### Steps that keep the pins -/

/-- Nothing queued or under way leads another worker to the fiber. -/
def Reserved (sched : Scheduler n φ γ) (fiber : φ) (thread : Nat) : Prop :=
  (∀ entry ∈ sched.queue, entry.ft.task = .fiber fiber → entry.ft.thread = some thread) ∧
    ∀ w, (sched.workers w).aim = some fiber → w.val = thread

/-- No thread was asked for the task. -/
def Tracked.Unpinned (tracked : Tracked n φ γ) : Option (Task φ γ) → Prop
  | some (.fiber fiber) => tracked.pins fiber = []
  | some (.cb _) | none => True

/-- **What keeps the pins.** A fiber for which a thread was asked is scheduled with that thread only,
so neither in a range nor by an event nor because it came back `READY`; and a thread is asked for a
fiber while the fiber is on its way to no other. -/
def KeepsPins (tracked : Tracked n φ γ) : Label n φ γ → Prop
  | .schedule (some (.fiber fiber)) thread =>
    (∀ pin ∈ tracked.pins fiber, thread = some pin) ∧
      ∀ pin ∈ thread, tracked.sched.Reserved fiber pin
  | .scheduleRange tasks => ∀ task ∈ tasks, tracked.Unpinned task
  | .triggerEvent task => tracked.Unpinned (some task)
  | .requeue w => ∀ fiber ∈ (tracked.sched.workers w).names, tracked.pins fiber = []
  | _ => True

instance [DecidableEq φ] [DecidableEq γ] (sched : Scheduler n φ γ) (fiber : φ) (thread : Nat) :
    Decidable (sched.Reserved fiber thread) :=
  inferInstanceAs (Decidable (_ ∧ _))

instance (tracked : Tracked n φ γ) : (task : Option (Task φ γ)) → Decidable (tracked.Unpinned task)
  | some (.fiber _) => inferInstanceAs (Decidable (_ = []))
  | some (.cb _) | none => .isTrue trivial

instance [DecidableEq φ] [DecidableEq γ] (tracked : Tracked n φ γ) :
    (label : Label n φ γ) → Decidable (KeepsPins tracked label)
  | .schedule (some (.fiber fiber)) thread => inferInstanceAs (Decidable
      ((∀ pin ∈ tracked.pins fiber, thread = some pin) ∧
        ∀ pin ∈ thread, tracked.sched.Reserved fiber pin))
  | .scheduleRange tasks => inferInstanceAs (Decidable (∀ task ∈ tasks, tracked.Unpinned task))
  | .triggerEvent task => inferInstanceAs (Decidable (tracked.Unpinned (some task)))
  | .requeue w => inferInstanceAs (Decidable
      (∀ fiber ∈ (tracked.sched.workers w).names, tracked.pins fiber = []))
  | .newFiber _ | .schedule (some (.cb _)) _ | .schedule none _ | .stop | .scan _ | .check _
  | .create .. | .swapIn _ | .setExec _ | .switch _ | .addEvent .. | .yield .. | .finish ..
  | .swapOut _ | .release _ | .getState _ | .enterIdle _ | .leaveIdle .. | .afterIdle _ =>
    .isTrue trivial

/-! ### The invariant -/

/-- What is queued, waits for an event or is in a worker's hands exists, and whoever leads to a fiber
for which a thread was asked leads there by that thread. -/
structure Pinned (sched : Scheduler n φ γ) (pins : φ → List Nat) (hand : Fin n → Option Nat) :
    Prop where
  queued : ∀ entry ∈ sched.queue, sched.known entry.ft.task = true
  waiting : ∀ task ∈ sched.waiting, sched.known task = true
  present : ∀ w fiber, (sched.workers w).names = some fiber → (sched.fibers fiber).isSome = true
  pinned : ∀ entry ∈ sched.queue, ∀ fiber, entry.ft.task = .fiber fiber →
    ∀ pin ∈ pins fiber, entry.ft.thread = some pin
  aimed : ∀ w fiber, (sched.workers w).aim = some fiber → ∀ pin ∈ pins fiber, pin = w.val
  callback : ∀ w cb, sched.workers w = .taken (.cb cb) → ∀ pin ∈ hand w, pin = w.val

variable {sched : Scheduler n φ γ} {pins : φ → List Nat} {hand : Fin n → Option Nat}

theorem pinned_new (n : Nat) : Pinned (new n : Scheduler n φ γ) (fun _ => []) (fun _ => none) :=
  ⟨nofun, nofun, nofun, nofun, nofun, nofun⟩

/-- The fibers may change as long as none disappears. -/
theorem Pinned.fibers (pinned : Pinned sched pins hand) {fibers : φ → Option Fiber}
    (kept : ∀ fiber, (sched.fibers fiber).isSome = true → (fibers fiber).isSome = true) :
    Pinned { sched with fibers := fibers } pins hand := by
  have known : ∀ task, sched.known task = true →
      ({ sched with fibers := fibers } : Scheduler n φ γ).known task = true
    | .fiber fiber, known => kept fiber known
    | .cb _, _ => rfl
  exact ⟨fun entry mem => known _ (pinned.queued entry mem),
    fun task mem => known _ (pinned.waiting task mem),
    fun w fiber named => kept fiber (pinned.present w fiber named), pinned.pinned, pinned.aimed,
    pinned.callback⟩

/-- **A worker moves on.** -/
theorem Pinned.move (pinned : Pinned sched pins hand) (w : Fin n) (phase : Worker φ γ)
    (present : ∀ fiber, phase.names = some fiber → (sched.fibers fiber).isSome = true)
    (aimed : ∀ fiber, phase.aim = some fiber → ∀ pin ∈ pins fiber, pin = w.val)
    (callback : ∀ cb, phase = .taken (.cb cb) → ∀ pin ∈ hand w, pin = w.val) :
    Pinned (sched.goto w phase) pins hand := by
  have all : ∀ {P : Fin n → Worker φ γ → Prop}, P w phase → (∀ v, P v (sched.workers v)) →
      ∀ v, P v (Function.update sched.workers w phase v) := by
    intro P here others v
    by_cases isW : v = w
    · subst isW
      rw [Function.update_self]
      exact here
    · rw [Function.update_of_ne isW]
      exact others v
  refine ⟨pinned.queued, pinned.waiting, ?_, pinned.pinned, ?_, ?_⟩
  · exact @all (fun _ phase => ∀ fiber, phase.names = some fiber →
      (sched.fibers fiber).isSome = true) present pinned.present
  · exact @all (fun v phase => ∀ fiber, phase.aim = some fiber → ∀ pin ∈ pins fiber, pin = v.val)
      aimed pinned.aimed
  · exact @all (fun v phase => ∀ cb, phase = .taken (.cb cb) → ∀ pin ∈ hand v, pin = v.val)
      callback pinned.callback

/-- A worker goes on with the fiber that it names, or with none. -/
theorem Pinned.proceed (pinned : Pinned sched pins hand) {w : Fin n} {old : Worker φ γ}
    (here : sched.workers w = old) (phase : Worker φ γ)
    (names : phase.names = old.names ∨ phase.names = none)
    (aim : phase.aim = old.aim ∨ phase.aim = none) (noCb : ∀ cb, phase ≠ .taken (.cb cb)) :
    Pinned (sched.goto w phase) pins hand := by
  subst here
  refine pinned.move w phase (fun fiber named => ?_) (fun fiber aims => ?_)
    (fun cb same => absurd same (noCb cb))
  · rcases names with same | none
    · exact pinned.present w fiber (same ▸ named)
    · exact absurd (none.symm.trans named) nofun
  · rcases aim with same | none
    · exact pinned.aimed w fiber (same ▸ aims)
    · exact absurd (none.symm.trans aims) nofun

/-- **A push** of tasks that exist, each with the thread that was asked for it. -/
theorem Pinned.push (pinned : Pinned sched pins hand) (fts : List (Option (FiberAndThread φ γ)))
    (known : ∀ ft ∈ fts.reduceOption, sched.known ft.task = true)
    (asked : ∀ ft ∈ fts.reduceOption, ∀ fiber, ft.task = .fiber fiber →
      ∀ pin ∈ pins fiber, ft.thread = some pin) :
    Pinned (sched.pushing fts).1 pins hand := by
  rw [Scheduler.pushing, scheduleRange_eq]
  have isFt : ∀ entry ∈ numbered sched.nextId fts, entry.ft ∈ fts.reduceOption := by
    intro entry mem
    rw [← map_ft_numbered fts sched.nextId]
    exact List.mem_map_of_mem mem
  refine ⟨fun entry mem => ?_, pinned.waiting, pinned.present, fun entry mem => ?_, pinned.aimed,
    pinned.callback⟩
  · rcases List.mem_append.mp mem with mem | mem
    · exact pinned.queued entry mem
    · exact known entry.ft (isFt entry mem)
  · rcases List.mem_append.mp mem with mem | mem
    · exact pinned.pinned entry mem
    · exact asked entry.ft (isFt entry mem)

/-- The counters are none of the pins' business. -/
theorem Pinned.counters (pinned : Pinned sched pins hand) (active idle : Nat)
    (idleEnded : Fin n → Bool) :
    Pinned { sched with active := active, idle := idle, idleEnded := idleEnded } pins hand :=
  ⟨pinned.queued, pinned.waiting, pinned.present, pinned.pinned, pinned.aimed, pinned.callback⟩

variable [DecidableEq φ]

/-- A change of one fiber that exists. -/
theorem Pinned.change (pinned : Pinned sched pins hand) (fiber : φ) (change : Fiber → Fiber) :
    Pinned { sched with
      fibers := Function.update sched.fibers fiber ((sched.fibers fiber).map change) } pins hand := by
  refine pinned.fibers fun other exists_ => ?_
  by_cases same : other = fiber
  · subst same
    rw [Function.update_self, Option.isSome_map]
    exact exists_
  · rwa [Function.update_of_ne same]

/-- A new fiber. -/
theorem Pinned.addFiber (pinned : Pinned sched pins hand) (fiber : φ) :
    Pinned (sched.addFiber fiber) pins hand := by
  refine pinned.fibers fun other exists_ => ?_
  by_cases same : other = fiber
  · subst same
    rw [Function.update_self]
    rfl
  · rwa [Function.update_of_ne same]

/-- A thread is asked for a fiber that nothing leads to. -/
theorem Pinned.ask (pinned : Pinned sched pins hand) {fiber : φ} {asked : List Nat}
    (reserved : ∀ pin ∈ asked, pin ∈ pins fiber ∨ sched.Reserved fiber pin) :
    Pinned sched (Function.update pins fiber asked) hand := by
  refine ⟨pinned.queued, pinned.waiting, pinned.present, fun entry mem other isOther => ?_,
    fun w other aims => ?_, pinned.callback⟩
  · by_cases same : other = fiber
    · subst same
      rw [Function.update_self]
      intro pin isAsked
      rcases reserved pin isAsked with before | free
      · exact pinned.pinned entry mem other isOther pin before
      · exact free.1 entry mem isOther
    · rw [Function.update_of_ne same]
      exact pinned.pinned entry mem other isOther
  · by_cases same : other = fiber
    · subst same
      rw [Function.update_self]
      intro pin isAsked
      rcases reserved pin isAsked with before | free
      · exact pinned.aimed w other aims pin before
      · exact (free.2 w aims).symm
    · rw [Function.update_of_ne same]
      exact pinned.aimed w other aims

/-! ### Steps -/

variable {tracked : Tracked n φ γ} {w : Fin n}

omit [DecidableEq φ] in
/-- The thread of the entry that a worker takes is noted for it. -/
theorem Pinned.grasp (pinned : Pinned sched pins hand) {w : Fin n}
    (free : ∀ cb, sched.workers w ≠ .taken (.cb cb)) (thread : Option Nat) :
    Pinned sched pins (Function.update hand w thread) := by
  refine ⟨pinned.queued, pinned.waiting, pinned.present, pinned.pinned, pinned.aimed,
    fun v cb holds => ?_⟩
  by_cases isW : v = w
  · subst isW
    exact absurd holds (free cb)
  · rw [Function.update_of_ne isW]
    exact pinned.callback v cb holds

omit [DecidableEq φ] in
/-- **A worker takes an entry** that is pinned to no other thread. -/
theorem Pinned.take (pinned : Pinned sched pins hand) {w : Fin n} {front back : List (Entry φ γ)}
    {entry : Entry φ γ} (split : sched.queue = front ++ entry :: back)
    (free : ∀ cb, sched.workers w ≠ .taken (.cb cb)) (own : ∀ pin ∈ entry.ft.thread, pin = w.val)
    (active : Nat) :
    Pinned ({ sched with queue := front ++ back, active := active }.goto w (.taken entry.ft.task)) pins
      (Function.update hand w entry.ft.thread) := by
  have mem : entry ∈ sched.queue := by
    rw [split]
    exact List.mem_append_cons_self
  have sub : ∀ other ∈ front ++ back, other ∈ sched.queue := by
    intro other mem
    rw [split]
    exact List.mem_append.mpr ((List.mem_append.mp mem).imp_right (List.mem_cons_of_mem _))
  have exists_ := pinned.queued entry mem
  have asked := pinned.pinned entry mem
  have fewer : Pinned { sched with queue := front ++ back, active := active } pins
      (Function.update hand w entry.ft.thread) :=
    have noted := pinned.grasp free entry.ft.thread
    ⟨fun other mem => noted.queued other (sub other mem), noted.waiting, noted.present,
      fun other mem => noted.pinned other (sub other mem), noted.aimed, noted.callback⟩
  generalize entry.ft.task = task at exists_ asked
  refine fewer.move w (.taken task) (fun fiber named => ?_) (fun fiber aims pin isPin => ?_)
    (fun cb _ pin held => ?_)
  · cases task with
    | cb cb => cases named
    | fiber other =>
        cases named
        exact exists_
  · cases task with
    | cb cb => cases aims
    | fiber other =>
        cases aims
        exact own pin (asked fiber rfl pin isPin)
  · rw [Function.update_self] at held
    exact own pin held

theorem create_pinned (pinned : Pinned tracked.sched tracked.pins tracked.hand) {fiber : φ} {cb : γ}
    (here : tracked.sched.workers w = .taken (.cb cb)) (fresh : tracked.sched.fibers fiber = none) :
    Pinned ((tracked.sched.addFiber fiber).goto w (.entering fiber))
      (tracked.pinsAfter (.create w fiber)) (tracked.handAfter (.create w fiber)) := by
  have absent := Option.not_isSome_iff_eq_none.mpr fresh
  have nothing : ∀ thread, tracked.sched.known (.fiber fiber) = true →
      tracked.sched.Reserved fiber thread := fun _ known => absurd known absent
  have unqueued : ∀ pin, tracked.sched.Reserved fiber pin := by
    refine fun pin => ⟨fun entry mem isFiber => ?_, fun v aims => ?_⟩
    · exact (nothing pin (isFiber ▸ pinned.queued entry mem)).1 entry mem isFiber
    · have named : (tracked.sched.workers v).names = some fiber := by
        revert aims
        generalize tracked.sched.workers v = phase
        intro aims
        cases phase with
        | taken task => cases task <;> exact aims
        | entering other | asserted other | marked other => exact aims
        | _ => cases aims
      exact absurd (pinned.present v fiber named) absent
  have reserved : ∀ pin ∈ (tracked.hand w).toList,
      pin ∈ tracked.pins fiber ∨ tracked.sched.Reserved fiber pin :=
    fun pin _ => Or.inr (unqueued pin)
  have asked := (pinned.ask reserved).addFiber fiber
  refine asked.move w (.entering fiber) (fun other named => ?_) (fun other aims pin held => ?_) nofun
  · cases named
    show (Function.update tracked.sched.fibers fiber _ fiber).isSome = true
    rw [Function.update_self]
    rfl
  · cases aims
    rw [Function.update_self, Option.mem_toList] at held
    exact pinned.callback w cb here pin held

theorem workerStep_pinned (pinned : Pinned tracked.sched tracked.pins tracked.hand)
    {label : Label n φ γ} (own : label.worker = some w) (keeps : KeepsPins tracked label)
    {next : Scheduler n φ γ × Output n φ}
    (stepped : tracked.sched.workerStep label (tracked.sched.workers w) = some next) :
    Pinned next.1 (tracked.pinsAfter label) (tracked.handAfter label) := by
  generalize here : tracked.sched.workers w = phase at stepped
  have atTop (isTop : phase = .top) : ∀ cb, tracked.sched.workers w ≠ .taken (.cb cb) := by
    rw [here, isTop]
    rintro cb ⟨⟩
  cases workerStep_cases own stepped with
  | scanNone nothing =>
      rw [Tracked.handAfter, nothing]
      exact (pinned.grasp (atTop rfl) none).proceed here .noTask (Or.inl rfl) (Or.inl rfl)
        (by rintro cb ⟨⟩)
  | scan found =>
      obtain ⟨front, back, split, rfl, runs, _⟩ := scanFibers_eq_some.mp found
      rw [Tracked.handAfter, found]
      refine pinned.take split (atTop rfl) (fun pin asked => ?_) _
      have notOther := (mayRun_iff.mp runs).1
      rw [Option.mem_def.mp asked] at notOther
      simpa using notOther
  | checkEnded => exact pinned.proceed here .dead (Or.inr rfl) (Or.inr rfl) nofun
  | check => exact pinned.proceed here (.entering _) (Or.inl rfl) (Or.inl rfl) nofun
  -- the fiber of a callback inherits the thread of its entry
  | create absent => exact create_pinned pinned here absent
  | swapInEnded => exact pinned.proceed here (.back _) (Or.inl rfl) (Or.inr rfl) nofun
  | swapIn => exact pinned.proceed here (.asserted _) (Or.inl rfl) (Or.inl rfl) nofun
  | setExec => exact (pinned.change _ _).proceed here (.marked _) (Or.inl rfl) (Or.inl rfl) nofun
  | switch => exact (pinned.change _ _).proceed here (.executing _) (Or.inl rfl) (Or.inr rfl) nofun
  -- the task of an event is a callback or the fiber that runs
  | @addEvent fiber cb =>
      refine ⟨pinned.queued, List.forall_mem_cons.mpr ⟨?_, pinned.waiting⟩, pinned.present,
        pinned.pinned, pinned.aimed, pinned.callback⟩
      cases cb with
      | none => exact pinned.present w fiber (by rw [here]; rfl)
      | some cb => rfl
  | yield => exact (pinned.change _ _).proceed here (.leaving _) (Or.inl rfl) (Or.inr rfl) nofun
  | finish => exact (pinned.change _ _).proceed here (.leaving _) (Or.inl rfl) (Or.inr rfl) nofun
  | swapOut => exact (pinned.change _ _).proceed here (.back _) (Or.inl rfl) (Or.inr rfl) nofun
  | release =>
      exact (pinned.proceed here (.released _) (Or.inl rfl) (Or.inr rfl) nofun).counters _ _ _
  | releaseDead => exact (pinned.proceed here .top (Or.inr rfl) (Or.inr rfl) nofun).counters _ _ _
  | getReady => exact pinned.proceed here (.requeue _) (Or.inl rfl) (Or.inr rfl) nofun
  | getState => exact pinned.proceed here .top (Or.inr rfl) (Or.inr rfl) nofun
  -- a fiber that came back in state `READY` is scheduled again, without its thread
  | @requeue fiber =>
      refine (pinned.proceed here .top (Or.inr rfl) (Or.inr rfl) nofun).push _ ?_ ?_
      · rw [List.reduceOption_cons_of_some, List.reduceOption_nil]
        exact List.forall_mem_cons.mpr ⟨pinned.present w fiber (by rw [here]; rfl), nofun⟩
      · rw [List.reduceOption_cons_of_some, List.reduceOption_nil]
        refine List.forall_mem_cons.mpr ⟨fun other isFiber pin asked => ?_, nofun⟩
        cases isFiber
        have none_ := keeps fiber (by rw [here]; rfl)
        exact absurd (none_ ▸ asked) List.not_mem_nil
  | leaveLoop => exact pinned.proceed here .done (Or.inl rfl) (Or.inl rfl) nofun
  | enterIdle => exact (pinned.proceed here .idle (Or.inl rfl) (Or.inl rfl) nofun).counters _ _ _
  | endIdle => exact (pinned.proceed here .idled (Or.inl rfl) (Or.inl rfl) nofun).counters _ _ _
  | leaveIdle => exact pinned.proceed here .idled (Or.inl rfl) (Or.inl rfl) nofun
  | afterIdle => exact (pinned.proceed here .top (Or.inl rfl) (Or.inl rfl) nofun).counters _ _ _

variable [DecidableEq γ]

theorem callerStep_pinned (pinned : Pinned tracked.sched tracked.pins tracked.hand)
    {label : Label n φ γ} (keeps : KeepsPins tracked label)
    {next : Scheduler n φ γ × Output n φ} (stepped : tracked.sched.callerStep label = some next) :
    Pinned next.1 (tracked.pinsAfter label) (tracked.handAfter label) := by
  cases callerStep_cases stepped with
  | newFiber => exact pinned.addFiber _
  | @schedule task thread known =>
      have single : ∀ {P : FiberAndThread φ γ → Prop}, (∀ task' ∈ task, P ⟨task', thread⟩) →
          ∀ ft ∈ ([task.map (⟨·, thread⟩)] : List (Option (FiberAndThread φ γ))).reduceOption, P ft := by
        intro P each ft mem
        rw [List.reduceOption_mem_iff, List.mem_singleton] at mem
        obtain ⟨task', isTask, rfl⟩ := Option.map_eq_some_iff.mp mem.symm
        exact each task' isTask
      have exists_ := @single (fun ft => tracked.sched.known ft.task = true) known
      cases task with
      | none => exact pinned.push _ exists_ nofun
      | some task =>
          cases task with
          | cb cb => exact pinned.push _ exists_ (single fun task' isTask other isFiber => by
              cases isTask
              cases isFiber)
          | fiber fiber =>
              obtain ⟨same, reserved⟩ := keeps
              have asked : Pinned tracked.sched
                  (tracked.pinsAfter (.schedule (some (.fiber fiber)) thread)) tracked.hand ∧
                  ∀ pin ∈ tracked.pinsAfter (.schedule (some (.fiber fiber)) thread) fiber,
                    thread = some pin := by
                cases thread with
                | none => exact ⟨pinned, same⟩
                | some pin =>
                    refine ⟨pinned.ask (List.forall_mem_cons.mpr
                      ⟨Or.inr (reserved pin rfl), fun _ => Or.inl⟩), ?_⟩
                    show ∀ pin' ∈ Function.update tracked.pins fiber _ fiber, _
                    rw [Function.update_self]
                    exact List.forall_mem_cons.mpr ⟨rfl, same⟩
              exact asked.1.push _ exists_ (single fun task' isTask other isFiber => by
                cases isTask
                cases isFiber
                exact asked.2)
  | @scheduleRange tasks known =>
      have each : ∀ ft ∈ (tasks.map (Option.map fun task =>
          (⟨task, none⟩ : FiberAndThread φ γ))).reduceOption, some ft.task ∈ tasks := by
        intro ft mem
        rw [List.reduceOption_mem_iff, List.mem_map] at mem
        obtain ⟨_, mem, isSome⟩ := mem
        obtain ⟨task, rfl, rfl⟩ := Option.map_eq_some_iff.mp isSome
        exact mem
      refine pinned.push _ (fun ft mem => known _ (each ft mem))
        fun ft mem fiber isFiber pin asked => ?_
      have unpinned := keeps _ (each ft mem)
      rw [isFiber] at unpinned
      exact absurd (unpinned ▸ asked) List.not_mem_nil
  | @triggerEvent task waits =>
      have fewer : Pinned { tracked.sched with waiting := tracked.sched.waiting.erase task }
          tracked.pins tracked.hand :=
        ⟨pinned.queued, fun other mem => pinned.waiting other (List.mem_of_mem_erase mem),
          pinned.present, pinned.pinned, pinned.aimed, pinned.callback⟩
      refine fewer.push _ ?_ ?_
      · rw [List.reduceOption_cons_of_some, List.reduceOption_nil]
        exact List.forall_mem_cons.mpr ⟨pinned.waiting task waits, nofun⟩
      · rw [List.reduceOption_cons_of_some, List.reduceOption_nil]
        refine List.forall_mem_cons.mpr ⟨fun fiber isFiber pin asked => ?_, nofun⟩
        obtain rfl : task = .fiber fiber := isFiber
        exact absurd ((show tracked.pins fiber = [] from keeps) ▸ asked) List.not_mem_nil
  | stop =>
      exact ⟨pinned.queued, pinned.waiting, pinned.present, pinned.pinned, pinned.aimed,
        pinned.callback⟩

/-- **Every step that keeps the pins keeps the invariant.** -/
theorem step_pinned (label : Label n φ γ) {next : Tracked n φ γ × Output n φ}
    (pinned : Pinned tracked.sched tracked.pins tracked.hand) (keeps : KeepsPins tracked label)
    (stepped : tracked.step label = some next) :
    Pinned next.1.sched next.1.pins next.1.hand := by
  obtain ⟨moved, taken, rfl⟩ := Option.map_eq_some_iff.mp stepped
  unfold Scheduler.step at taken
  split at taken
  · exact callerStep_pinned pinned keeps taken
  · rename_i own
    exact workerStep_pinned pinned own keeps taken

/-! ### Runs -/

/-- Each worker that is about to switch to a fiber is one that was asked for. -/
def OwnThread (tracked : Tracked n φ γ) : Prop :=
  ∀ w fiber, tracked.sched.workers w = .marked fiber → ∀ pin ∈ tracked.pins fiber, pin = w.val

/-- **A task stays on its thread while its pins are kept.** In every run whose steps keep the pins,
in every state and so before every switch to a fiber: if `schedule` was called for it, or for the
callback it was made for, with a thread, then the switch is by the worker of that thread. -/
theorem pinned_while_kept {labels : List (Label n φ γ)} {outputs : List (Output n φ)}
    (executed : trace step (new n) labels = some (sched, outputs))
    (kept : Meets Tracked.step KeepsPins (Tracked.new n) labels) :
    ∃ final, trace Tracked.step (Tracked.new n) labels = some (final, outputs) ∧
      final.sched = sched ∧
      ∀ before after middle front, labels = before ++ after →
        trace Tracked.step (Tracked.new n) before = some (middle, front) → OwnThread middle := by
  have recorded := Tracked.trace_step labels (Tracked.new n : Tracked n φ γ)
  rw [show (Tracked.new n : Tracked n φ γ).sched = new n from rfl, executed] at recorded
  obtain ⟨⟨final, outputs'⟩, traced, same⟩ := Option.map_eq_some_iff.mp recorded
  cases same
  refine ⟨final, traced, rfl, ?_⟩
  rintro before after middle front rfl reached
  have keeps : ∀ (state : Tracked n φ γ) label next, Pinned state.sched state.pins state.hand →
      KeepsPins state label → state.step label = some next →
      Pinned next.1.sched next.1.pins next.1.hand :=
    fun _ label _ pinned keeps stepped => step_pinned label pinned keeps stepped
  have pinned := trace_invariant KeepsPins keeps before (pinned_new n) (meets_append.mp kept).1 reached
  exact fun w fiber marked => pinned.aimed w fiber (by rw [marked]; rfl)

/-- A callback for thread 1 is passed by worker 0; worker 1 makes its fiber and runs it. -/
theorem pinned_while_kept_callback :
    ∃ sched outputs, trace step (new 2 : Scheduler 2 Nat Nat)
        [.schedule (some (.cb 40)) (some 1), .scan 0, .scan 1, .create 1 7, .swapIn 1, .setExec 1,
          .switch 1] = some (sched, outputs) ∧
      ∃ middle front, trace Tracked.step (Tracked.new 2 : Tracked 2 Nat Nat)
          [.schedule (some (.cb 40)) (some 1), .scan 0, .scan 1, .create 1 7, .swapIn 1,
            .setExec 1] = some (middle, front) ∧
        middle.sched.workers 1 = .marked 7 ∧ middle.pins 7 = [1] ∧ OwnThread middle := by
  have executed : trace step (new 2 : Scheduler 2 Nat Nat)
      [.schedule (some (.cb 40)) (some 1), .scan 0, .scan 1, .create 1 7, .swapIn 1, .setExec 1,
        .switch 1] = some (_, _) := rfl
  obtain ⟨_, _, _, own⟩ := pinned_while_kept executed (by decide +kernel)
  exact ⟨_, _, executed, _, _, rfl, rfl, rfl,
    own [.schedule (some (.cb 40)) (some 1), .scan 0, .scan 1, .create 1 7, .swapIn 1, .setExec 1]
      [.switch 1] _ _ rfl rfl⟩

/-- **One `YeildToReady` loses the thread.** A fiber scheduled for thread 0 runs there and yields;
`run` schedules it again without the thread, and worker 1 goes on with it. -/
theorem pin_lost :
    ∃ tracked outputs, trace Tracked.step (Tracked.new 2 : Tracked 2 Nat Nat)
        [.newFiber 7, .schedule (some (.fiber 7)) (some 0), .scan 0, .check 0, .swapIn 0, .setExec 0,
          .switch 0, .yield 0 true, .swapOut 0, .release 0, .getState 0, .requeue 0, .scan 1, .check 1,
          .swapIn 1, .setExec 1] = some (tracked, outputs) ∧
      tracked.pins 7 = [0] ∧ tracked.sched.workers 1 = .marked 7 ∧ ¬ OwnThread tracked := by
  refine ⟨_, _, rfl, rfl, rfl, fun own => ?_⟩
  exact absurd (own 1 7 rfl 0 List.mem_cons_self) (by decide)

end Wyze.Scheduler
