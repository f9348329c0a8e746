/-
**No task is lost, none is handed out twice, and the counters are exact.**

* `Placed`: the entries pushed so far are numbered in order, and each of them is either in `m_fibers`
  or was taken by a worker, once.
* `Counted`: `m_activeThreadCount` is the number of workers that hold a task, and
  `m_idleThreadCount` the number of those in their idle fibers.
* `scanFibers_eq_some`, `scanFibers_eq_none`: a scan takes the first entry that its worker may run.

Every step keeps the first two; `tasks_dispatched` puts the three together for every run.
-/
import Wyze.Lib.Run
import Wyze.Scheduler.Dispatch

namespace Wyze.Scheduler

open Labelled Parties

variable {n : Nat} {φ γ : Type*}

/-! ### The scan -/

theorem mayRun_iff {sched : Scheduler n φ γ} {w : Fin n} {entry : Entry φ γ} :
    sched.mayRun w entry = true ↔
      ¬ (entry.ft.thread ≠ none ∧ entry.ft.thread ≠ some w.val) ∧
        ¬ sched.isExec entry.ft.task = true := by
  simp only [mayRun, Bool.and_eq_true, Bool.or_eq_true, decide_eq_true_eq, Bool.not_eq_true',
    Bool.not_eq_true, not_and_or, not_not]

/-- The scan goes past an entry that the worker may not run. -/
theorem scanFibers_cons_of_not {sched : Scheduler n φ γ} {w : Fin n} {entry : Entry φ γ}
    (blocked : ¬ sched.mayRun w entry = true) (rest : List (Entry φ γ)) :
    scanFibers sched.isExec w (entry :: rest) =
      (scanFibers sched.isExec w rest).map fun (found, left) => (found, entry :: left) := by
  rw [mayRun_iff] at blocked
  rw [scanFibers]
  split
  · rfl
  · rename_i own
    rw [if_pos (by tauto)]

/-- The scan stops at an entry that the worker may run. -/
theorem scanFibers_cons_of {sched : Scheduler n φ γ} {w : Fin n} {entry : Entry φ γ}
    (runs : sched.mayRun w entry = true) (rest : List (Entry φ γ)) :
    scanFibers sched.isExec w (entry :: rest) = some (entry, rest) := by
  rw [mayRun_iff] at runs
  rw [scanFibers, if_neg runs.1, if_neg runs.2]

theorem scanFibers_eq_none {sched : Scheduler n φ γ} {w : Fin n} {queue : List (Entry φ γ)} :
    scanFibers sched.isExec w queue = none ↔ ∀ entry ∈ queue, ¬ sched.mayRun w entry = true := by
  induction queue with
  | nil => exact iff_of_true rfl nofun
  | cons entry rest ih =>
      rw [List.forall_mem_cons]
      by_cases runs : sched.mayRun w entry = true
      · rw [scanFibers_cons_of runs]
        exact iff_of_false nofun fun all => all.1 runs
      · rw [scanFibers_cons_of_not runs, Option.map_eq_none_iff, ih]
        exact (and_iff_right runs).symm

/-- **The scan takes the earliest entry that the worker may run.** -/
theorem scanFibers_eq_some {sched : Scheduler n φ γ} {w : Fin n} {queue left : List (Entry φ γ)}
    {found : Entry φ γ} :
    scanFibers sched.isExec w queue = some (found, left) ↔
      ∃ front back, queue = front ++ found :: back ∧ left = front ++ back ∧
        sched.mayRun w found = true ∧ ∀ entry ∈ front, ¬ sched.mayRun w entry = true := by
  induction queue generalizing left with
  | nil => exact iff_of_false nofun fun ⟨front, back, split, _⟩ => by simp at split
  | cons entry rest ih =>
      by_cases runs : sched.mayRun w entry = true
      · rw [scanFibers_cons_of runs]
        constructor
        · intro taken
          cases taken
          exact ⟨[], rest, rfl, rfl, runs, nofun⟩
        · rintro ⟨front, back, split, rfl, _, passed⟩
          cases front with
          | nil =>
              cases split
              rfl
          | cons first front =>
              cases split
              exact absurd runs (passed entry List.mem_cons_self)
      · rw [scanFibers_cons_of_not runs, Option.map_eq_some_iff]
        constructor
        · rintro ⟨⟨found', left'⟩, scanned, same⟩
          cases same
          obtain ⟨front, back, rfl, rfl, here, passed⟩ := ih.mp scanned
          exact ⟨entry :: front, back, rfl, rfl, here, List.forall_mem_cons.mpr ⟨runs, passed⟩⟩
        · rintro ⟨front, back, split, rfl, here, passed⟩
          cases front with
          | nil =>
              cases split
              exact absurd here runs
          | cons first front =>
              cases split
              refine ⟨(found, front ++ back), ih.mpr ⟨front, back, rfl, rfl, here, ?_⟩, rfl⟩
              exact fun other mem => passed other (List.mem_cons_of_mem _ mem)

/-- Without the numbers it is the scan of the worker pool. -/
theorem scanFibers_scanQueue [DecidableEq φ] (exec : Task φ γ → Bool) (self : Nat)
    (queue : List (Entry φ γ)) :
    ((scanFibers exec self queue).map fun (found, _) => found.ft.task) =
        (Pool.scanQueue exec self (queue.map Entry.ft)).1 ∧
      ((scanFibers exec self queue).elim queue Prod.snd).map Entry.ft =
        (Pool.scanQueue exec self (queue.map Entry.ft)).2.1 := by
  induction queue with
  | nil => exact ⟨rfl, rfl⟩
  | cons entry rest ih =>
      rw [List.map_cons, scanFibers, Pool.scanQueue]
      split
      · refine ⟨?_, ?_⟩
        · rw [← ih.1, Option.map_map]
          rfl
        · show _ = entry.ft :: (Pool.scanQueue exec self (rest.map Entry.ft)).2.1
          rw [← ih.2]
          cases scanFibers exec self rest <;> rfl
      · split
        · refine ⟨?_, ?_⟩
          · rw [← ih.1, Option.map_map]
            rfl
          · show _ = entry.ft :: (Pool.scanQueue exec self (rest.map Entry.ft)).2.1
            rw [← ih.2]
            cases scanFibers exec self rest <;> rfl
        · exact ⟨rfl, rfl⟩

/-! ### Pushes -/

/-- The entries that a push of these objects appends, numbered from `first`. -/
def numbered : Nat → List (Option (FiberAndThread φ γ)) → List (Entry φ γ)
  | _, [] => []
  | first, none :: fts => numbered first fts
  | first, some ft :: fts => ⟨first, ft⟩ :: numbered (first + 1) fts

theorem map_ft_numbered (fts : List (Option (FiberAndThread φ γ))) (first : Nat) :
    (numbered first fts).map Entry.ft = fts.reduceOption := by
  induction fts generalizing first with
  | nil => rfl
  | cons ft fts ih =>
      cases ft with
      | none => exact ih first
      | some ft =>
          rw [numbered, List.map_cons, ih, List.reduceOption_cons_of_some]

theorem map_id_numbered (fts : List (Option (FiberAndThread φ γ))) (first : Nat) :
    (numbered first fts).map Entry.id = List.range' first fts.reduceOption.length := by
  induction fts generalizing first with
  | nil => rfl
  | cons ft fts ih =>
      cases ft with
      | none => exact ih first
      | some ft =>
          rw [numbered, List.map_cons, ih, List.reduceOption_cons_of_some, List.length_cons,
            List.range'_succ]

/-- **A push** appends the objects that are not null, in order, and touches nothing else. -/
theorem scheduleRange_eq (sched : Scheduler n φ γ) (fts : List (Option (FiberAndThread φ γ))) :
    sched.scheduleRange fts = { sched with
      queue := sched.queue ++ numbered sched.nextId fts
      nextId := sched.nextId + fts.reduceOption.length } := by
  induction fts generalizing sched with
  | nil =>
      rw [numbered, List.append_nil]
      rfl
  | cons ft fts ih =>
      rw [scheduleRange, List.foldl_cons, ← scheduleRange, ih]
      cases ft with
      | none => rfl
      | some ft =>
          rw [numbered, List.reduceOption_cons_of_some, List.length_cons, scheduleNolock]
          dsimp only
          rw [List.append_assoc, List.singleton_append, Nat.add_assoc, Nat.add_comm 1]

/-! ### Where the entries are -/

/-- The numbers of the entries that an output shows as pushed. -/
def pushedBy : Output n φ → List Nat
  | .pushed ids => ids
  | .silent | .took .. | .switched .. => []

/-- The number of the entry that an output shows as taken. -/
def takenBy : Output n φ → Option Nat
  | .took _ id => some id
  | .silent | .pushed _ | .switched .. => none

/-- The entries pushed in a run, in order. -/
def pushedIds (outputs : List (Output n φ)) : List Nat := outputs.flatMap pushedBy

/-- The entries taken in a run, in order, by whichever worker. -/
def takenIds (outputs : List (Output n φ)) : List Nat := outputs.filterMap takenBy

/-- **Every entry is in one place**: it is still queued, or it was taken once. -/
structure Placed (queue : List (Entry φ γ)) (nextId : Nat) (outputs : List (Output n φ)) : Prop where
  numbered : pushedIds outputs = List.range nextId
  placed : (takenIds outputs ++ queue.map Entry.id).Perm (pushedIds outputs)

/-- The counters are exact. -/
structure Counted (workers : Fin n → Worker φ γ) (active idle : Nat) : Prop where
  active : active = howMany Worker.holdsTask workers
  idle : idle = howMany Worker.isIdle workers

variable {queue : List (Entry φ γ)} {nextId : Nat} {outputs : List (Output n φ)}

/-- The output shows neither a push nor a task taken. -/
def Quiet (output : Output n φ) : Prop := pushedBy output = [] ∧ takenBy output = none

theorem quiet_silent : Quiet (.silent : Output n φ) := ⟨rfl, rfl⟩

theorem quiet_switched (w : Fin n) (fiber : φ) (saved : Bool) :
    Quiet (.switched w fiber saved : Output n φ) :=
  ⟨rfl, rfl⟩

/-- A step that neither pushes nor takes. -/
theorem Placed.quiet (placed : Placed queue nextId outputs) {output : Output n φ}
    (quiet : Quiet output) : Placed queue nextId (outputs ++ [output]) := by
  obtain ⟨pushes, takes⟩ := quiet
  refine ⟨?_, ?_⟩
  · rw [pushedIds, List.flatMap_append, List.flatMap_singleton, pushes, List.append_nil]
    exact placed.numbered
  · rw [pushedIds, takenIds, List.flatMap_append, List.flatMap_singleton, pushes, List.append_nil,
      List.filterMap_append, List.filterMap_cons_none takes, List.filterMap_nil, List.append_nil]
    exact placed.placed

/-- A push. -/
theorem Placed.push (placed : Placed queue nextId outputs)
    (fts : List (Option (FiberAndThread φ γ))) :
    Placed (queue ++ Scheduler.numbered nextId fts) (nextId + fts.reduceOption.length)
      (outputs ++ [.pushed (List.range' nextId fts.reduceOption.length)]) := by
  refine ⟨?_, ?_⟩
  · rw [pushedIds, List.flatMap_append, List.flatMap_singleton, ← pushedIds, placed.numbered,
      pushedBy, List.range_eq_range', List.range_eq_range', ← List.range'_append_1, Nat.zero_add]
  · rw [pushedIds, takenIds, List.flatMap_append, List.flatMap_singleton, List.filterMap_append,
      List.filterMap_cons_none rfl, List.filterMap_nil, List.append_nil, List.map_append,
      map_id_numbered, ← List.append_assoc, pushedBy]
    exact List.Perm.append_right _ placed.placed

/-- A scan that takes an entry. -/
theorem Placed.take {front back : List (Entry φ γ)} {found : Entry φ γ}
    (placed : Placed (front ++ found :: back) nextId outputs) (w : Fin n) :
    Placed (front ++ back) nextId (outputs ++ [.took w found.id]) := by
  refine ⟨?_, ?_⟩
  · rw [pushedIds, List.flatMap_append, List.flatMap_singleton, pushedBy, List.append_nil]
    exact placed.numbered
  · have shown : ([.took w found.id] : List (Output n φ)).filterMap takenBy = [found.id] := rfl
    rw [pushedIds, takenIds, List.flatMap_append, List.flatMap_singleton, pushedBy, List.append_nil,
      List.filterMap_append, shown, List.append_assoc, List.singleton_append]
    refine List.Perm.trans (List.Perm.append_left _ ?_) placed.placed
    rw [List.map_append, List.map_append, List.map_cons]
    exact List.perm_middle.symm

/-- A worker moves to another phase and the counters follow. -/
theorem Counted.move {workers : Fin n → Worker φ γ} {active idle active' idle' : Nat}
    (counted : Counted workers active idle) (w : Fin n) {phase : Worker φ γ}
    (actives : active' + (workers w).holdsTask.toNat = active + phase.holdsTask.toNat)
    (idles : idle' + (workers w).isIdle.toNat = idle + phase.isIdle.toNat) :
    Counted (Function.update workers w phase) active' idle' := by
  have holds := howMany_update Worker.holdsTask workers w phase
  have idling := howMany_update Worker.isIdle workers w phase
  have active := counted.active
  have idle := counted.idle
  exact ⟨by omega, by omega⟩

/-- A worker that holds a task keeps the counter positive. -/
theorem Counted.active_pos {workers : Fin n → Worker φ γ} {active idle : Nat}
    (counted : Counted workers active idle) {w : Fin n} (holds : (workers w).holdsTask = true) :
    0 < active := by
  rw [counted.active]
  exact howMany_pos holds

theorem Counted.idle_pos {workers : Fin n → Worker φ γ} {active idle : Nat}
    (counted : Counted workers active idle) {w : Fin n} (idles : (workers w).isIdle = true) :
    0 < idle := by
  rw [counted.idle]
  exact howMany_pos idles

/-- `--` of a positive counter. -/
theorem decrement_add_one {count : Nat} (positive : 0 < count) : decrement count + 1 = count := by
  rw [decrement, if_neg (Nat.ne_of_gt positive)]
  exact Nat.sub_add_cancel positive

/-! ### What a step keeps -/

/-- The entries are in one place each and the counters are exact. -/
structure Valid (sched : Scheduler n φ γ) (outputs : List (Output n φ)) : Prop where
  placed : Placed sched.queue sched.nextId outputs
  counted : Counted sched.workers sched.active sched.idle

theorem valid_new (n : Nat) : Valid (new n : Scheduler n φ γ) [] :=
  ⟨⟨rfl, List.Perm.refl _⟩, ⟨(howMany_const_false rfl).symm, (howMany_const_false rfl).symm⟩⟩

variable {sched : Scheduler n φ γ}

/-- A push keeps the invariant. -/
theorem Valid.pushing (valid : Valid sched outputs) (fts : List (Option (FiberAndThread φ γ))) :
    Valid (sched.pushing fts).1 (outputs ++ [(sched.pushing fts).2]) := by
  rw [Scheduler.pushing, scheduleRange_eq]
  exact ⟨valid.placed.push fts, valid.counted⟩

/-- A step that neither pushes nor takes. -/
theorem Valid.quiet (valid : Valid sched outputs) {output : Output n φ} (quiet : Quiet output) :
    Valid sched (outputs ++ [output]) :=
  ⟨valid.placed.quiet quiet, valid.counted⟩

/-- A worker's move that leaves queue and counters alone keeps the invariant. -/
theorem Valid.goto (valid : Valid sched outputs) {w : Fin n} {old : Worker φ γ}
    (here : sched.workers w = old) (phase : Worker φ γ) (holds : old.holdsTask = phase.holdsTask)
    (idles : old.isIdle = phase.isIdle) : Valid (sched.goto w phase) outputs := by
  subst here
  exact ⟨valid.placed, valid.counted.move w
    (congrArg (sched.active + ·.toNat) holds) (congrArg (sched.idle + ·.toNat) idles)⟩

/-- A worker that has held a task drops it and decrements `m_activeThreadCount`. -/
theorem Valid.release (valid : Valid sched outputs) {w : Fin n} {old : Worker φ γ}
    (here : sched.workers w = old) (phase : Worker φ γ) (held : old.holdsTask = true)
    (drops : phase.holdsTask = false) (idles : old.isIdle = phase.isIdle) {output : Output n φ}
    (quiet : Quiet output) :
    Valid ({ sched with active := decrement sched.active }.goto w phase) (outputs ++ [output]) := by
  subst here
  have exact_count := decrement_add_one (valid.counted.active_pos held)
  refine ⟨valid.placed.quiet quiet, valid.counted.move w ?_
    (congrArg (sched.idle + ·.toNat) idles)⟩
  rw [held, drops, Bool.toNat_true, Bool.toNat_false]
  exact exact_count

theorem Valid.setWaiting (valid : Valid sched outputs) (waiting : List (Task φ γ)) :
    Valid { sched with waiting := waiting } outputs :=
  ⟨valid.placed, valid.counted⟩

variable [DecidableEq φ]

/-- Writes to fibers are none of the queue's business. -/
theorem Valid.setState (valid : Valid sched outputs) (fiber : φ) (state : FiberState) :
    Valid (sched.setState fiber state) outputs :=
  ⟨valid.placed, valid.counted⟩

theorem Valid.setSaved (valid : Valid sched outputs) (fiber : φ) (saved : Bool) :
    Valid (sched.setSaved fiber saved) outputs :=
  ⟨valid.placed, valid.counted⟩

theorem Valid.addFiber (valid : Valid sched outputs) (fiber : φ) :
    Valid (sched.addFiber fiber) outputs :=
  ⟨valid.placed, valid.counted⟩

variable [DecidableEq γ]

theorem callerStep_valid (valid : Valid sched outputs) {label : Label n φ γ}
    {next : Scheduler n φ γ × Output n φ} (stepped : sched.callerStep label = some next) :
    Valid next.1 (outputs ++ [next.2]) := by
  cases callerStep_cases stepped with
  | newFiber => exact ⟨valid.placed.quiet quiet_silent, valid.counted⟩
  | schedule => exact valid.pushing _
  | scheduleRange => exact valid.pushing _
  | triggerEvent => exact (valid.setWaiting _).pushing _
  | stop => exact ⟨valid.placed.quiet quiet_silent, valid.counted⟩

omit [DecidableEq γ] in
/-- What one step of a worker keeps, whichever of its phases it is in. -/
theorem workerStep_valid (valid : Valid sched outputs) {label : Label n φ γ} {w : Fin n}
    (own : label.worker = some w) {next : Scheduler n φ γ × Output n φ}
    (stepped : sched.workerStep label (sched.workers w) = some next) :
    Valid next.1 (outputs ++ [next.2]) := by
  generalize here : sched.workers w = phase at stepped
  cases workerStep_cases own stepped with
  | scanNone => exact (valid.goto here .noTask rfl rfl).quiet quiet_silent
  | scan found =>
      obtain ⟨front, back, split, rfl, _, _⟩ := scanFibers_eq_some.mp found
      refine ⟨Placed.take (split ▸ valid.placed) w, valid.counted.move w ?_ ?_⟩
      · rw [here]
        rfl
      · rw [here]
        rfl
  -- a worker that is to drop its task still holds it
  | checkEnded => exact (valid.goto here .dead rfl rfl).quiet quiet_silent
  | check => exact (valid.goto here (.entering _) rfl rfl).quiet quiet_silent
  | create => exact ((valid.addFiber _).goto here (.entering _) rfl rfl).quiet quiet_silent
  | swapInEnded => exact (valid.goto here (.back _) rfl rfl).quiet quiet_silent
  | swapIn => exact (valid.goto here (.asserted _) rfl rfl).quiet quiet_silent
  | setExec => exact ((valid.setState _ _).goto here (.marked _) rfl rfl).quiet quiet_silent
  | switch =>
      exact ((valid.setSaved _ _).goto here (.executing _) rfl rfl).quiet (quiet_switched _ _ _)
  | addEvent => exact ⟨valid.placed.quiet quiet_silent, valid.counted⟩
  | yield => exact ((valid.setState _ _).goto here (.leaving _) rfl rfl).quiet quiet_silent
  | finish => exact ((valid.setState _ _).goto here (.leaving _) rfl rfl).quiet quiet_silent
  | swapOut => exact ((valid.setSaved _ _).goto here (.back _) rfl rfl).quiet quiet_silent
  | release => exact valid.release here (.released _) rfl rfl rfl quiet_silent
  | releaseDead => exact valid.release here .top rfl rfl rfl quiet_silent
  | getReady => exact (valid.goto here (.requeue _) rfl rfl).quiet quiet_silent
  | getState => exact (valid.goto here .top rfl rfl).quiet quiet_silent
  | requeue => exact (valid.goto here .top rfl rfl).pushing _
  | leaveLoop => exact (valid.goto here .done rfl rfl).quiet quiet_silent
  | enterIdle =>
      refine ⟨valid.placed.quiet quiet_silent, valid.counted.move w ?_ ?_⟩
      · rw [here]
        rfl
      · rw [here]
        rfl
  | endIdle =>
      refine ⟨valid.placed.quiet quiet_silent, valid.counted.move w ?_ ?_⟩
      · rw [here]
        rfl
      · rw [here]
        rfl
  | leaveIdle => exact (valid.goto here .idled rfl rfl).quiet quiet_silent
  | afterIdle =>
      have exact_count := decrement_add_one (valid.counted.idle_pos (by rw [here]; rfl))
      refine ⟨valid.placed.quiet quiet_silent, valid.counted.move w ?_ ?_⟩
      · rw [here]
        rfl
      · rw [here]
        exact exact_count

/-- **Every step keeps the invariant.** -/
theorem step_valid (valid : Valid sched outputs) (label : Label n φ γ)
    {next : Scheduler n φ γ × Output n φ} (stepped : sched.step label = some next) :
    Valid next.1 (outputs ++ [next.2]) := by
  unfold step at stepped
  split at stepped
  · exact callerStep_valid valid stepped
  · rename_i own
    exact workerStep_valid valid own stepped

theorem run_valid {labels : List (Label n φ γ)} (executed : trace step (new n) labels =
    some (sched, outputs)) : Valid sched outputs :=
  @trace_history (Scheduler n φ γ) (Label n φ γ) (Output n φ) step Valid
    (fun _ _ label _ valid stepped => step_valid valid label stepped) labels (new n) sched []
    outputs (valid_new n) executed

/-! ### What the steps do with the queue -/

/-- The objects join the end of `m_fibers` in order, each as an entry of its own. -/
def Appends (sched next : Scheduler n φ γ) (output : Output n φ) (fts : List (FiberAndThread φ γ)) :
    Prop :=
  ∃ entries : List (Entry φ γ), next.queue = sched.queue ++ entries ∧
    entries.map Entry.ft = fts ∧ output = .pushed (entries.map Entry.id)

/-- **What a scan does**: the worker takes the earliest entry that it may run and leaves the others in
their order, or there is none that it may run and nothing is taken. -/
def Takes (sched : Scheduler n φ γ) (w : Fin n) (next : Scheduler n φ γ) (output : Output n φ) : Prop :=
  (∃ front entry back, sched.queue = front ++ entry :: back ∧ next.queue = front ++ back ∧
      output = .took w entry.id ∧ next.workers w = .taken entry.ft.task ∧
      sched.mayRun w entry = true ∧ ∀ other ∈ front, ¬ sched.mayRun w other = true) ∨
    (output = .silent ∧ next.queue = sched.queue ∧ next.workers w = .noTask ∧
      ∀ entry ∈ sched.queue, ¬ sched.mayRun w entry = true)

omit [DecidableEq φ] [DecidableEq γ] in
theorem pushing_appends (sched : Scheduler n φ γ) (fts : List (Option (FiberAndThread φ γ))) :
    Appends sched (sched.pushing fts).1 (sched.pushing fts).2 fts.reduceOption := by
  rw [pushing, scheduleRange_eq]
  exact ⟨Scheduler.numbered sched.nextId fts, rfl, map_ft_numbered fts _,
    congrArg Output.pushed (map_id_numbered fts _).symm⟩

theorem schedule_appends {task : Option (Task φ γ)} {thread : Option Nat} {next : Scheduler n φ γ}
    {output : Output n φ} (stepped : sched.step (.schedule task thread) = some (next, output)) :
    Appends sched next output (task.map (⟨·, thread⟩)).toList := by
  change sched.callerStep (.schedule task thread) = _ at stepped
  cases callerStep_cases stepped
  rw [← List.reduceOption_singleton]
  exact pushing_appends sched _

theorem scheduleRange_appends {tasks : List (Option (Task φ γ))} {next : Scheduler n φ γ}
    {output : Output n φ} (stepped : sched.step (.scheduleRange tasks) = some (next, output)) :
    Appends sched next output (tasks.reduceOption.map (⟨·, none⟩)) := by
  change sched.callerStep (.scheduleRange tasks) = _ at stepped
  cases callerStep_cases stepped
  rw [← List.reduceOption_map]
  exact pushing_appends sched _

theorem scan_takes {w : Fin n} {next : Scheduler n φ γ} {output : Output n φ}
    (stepped : sched.step (.scan w) = some (next, output)) : Takes sched w next output := by
  change sched.workerStep (.scan w) (sched.workers w) = _ at stepped
  generalize sched.workers w = phase at stepped
  cases workerStep_cases rfl stepped with
  | scanNone nothing =>
      exact Or.inr ⟨rfl, rfl, Function.update_self .., scanFibers_eq_none.mp nothing⟩
  | scan found =>
      obtain ⟨front, back, split, rfl, runs, passed⟩ := scanFibers_eq_some.mp found
      exact Or.inl ⟨front, _, back, split, rfl, rfl, Function.update_self .., runs, passed⟩

/-- A decrement of `m_activeThreadCount` does not wrap. -/
theorem release_active (valid : Valid sched outputs) {w : Fin n}
    {next : Scheduler n φ γ × Output n φ} (stepped : sched.step (.release w) = some next) :
    next.1.active + 1 = sched.active := by
  change sched.workerStep (.release w) (sched.workers w) = _ at stepped
  generalize here : sched.workers w = phase at stepped
  have positive (held : phase.holdsTask = true) : 0 < sched.active :=
    valid.counted.active_pos (w := w) (by rw [here]; exact held)
  cases workerStep_cases rfl stepped with
  | release => exact decrement_add_one (positive rfl)
  | releaseDead => exact decrement_add_one (positive rfl)

theorem callerStep_queue {label : Label n φ γ} {next : Scheduler n φ γ × Output n φ}
    (stepped : sched.callerStep label = some next) :
    ∃ entries, next.1.queue = sched.queue ++ entries := by
  cases callerStep_cases stepped with
  | newFiber => exact ⟨[], (List.append_nil _).symm⟩
  | schedule => exact (pushing_appends sched _).imp fun _ pushed => pushed.1
  | scheduleRange => exact (pushing_appends sched _).imp fun _ pushed => pushed.1
  | triggerEvent =>
      exact (pushing_appends { sched with waiting := _ } _).imp fun _ pushed => pushed.1
  | stop => exact ⟨[], (List.append_nil _).symm⟩

omit [DecidableEq γ] in
theorem workerStep_queue {label : Label n φ γ} {w : Fin n} (own : label.worker = some w)
    {phase : Worker φ γ} {next : Scheduler n φ γ × Output n φ}
    (stepped : sched.workerStep label phase = some next) :
    label = .scan w ∨ ∃ entries, next.1.queue = sched.queue ++ entries := by
  have same : ∃ entries, sched.queue = sched.queue ++ entries := ⟨[], (List.append_nil _).symm⟩
  cases workerStep_cases own stepped with
  | scanNone | scan => exact Or.inl rfl
  | requeue =>
      exact Or.inr ((pushing_appends (sched.goto _ .top) _).imp fun _ pushed => pushed.1)
  | _ => exact Or.inr same

/-- A queued fiber in state `EXEC` stays queued. -/
theorem exec_stays {label : Label n φ γ} {next : Scheduler n φ γ × Output n φ}
    (stepped : sched.step label = some next) {entry : Entry φ γ} (queued : entry ∈ sched.queue)
    (exec : sched.isExec entry.ft.task = true) : entry ∈ next.1.queue := by
  have appended (grows : ∃ entries, next.1.queue = sched.queue ++ entries) :
      entry ∈ next.1.queue := by
    obtain ⟨entries, grows⟩ := grows
    rw [grows]
    exact List.mem_append_left _ queued
  by_cases scans : ∃ w, label = .scan w
  · obtain ⟨w, rfl⟩ := scans
    rcases scan_takes stepped with ⟨front, found, back, split, left, _, _, runs, _⟩ | ⟨_, same, _⟩
    · rw [split, List.mem_append, List.mem_cons] at queued
      rw [left, List.mem_append]
      have other : entry ≠ found := by
        rintro rfl
        exact (mayRun_iff.mp runs).2 exec
      exact queued.imp_right fun mem => mem.resolve_left other
    · rwa [same]
  · unfold step at stepped
    split at stepped
    · exact appended (callerStep_queue stepped)
    · rename_i own
      exact appended ((workerStep_queue own stepped).resolve_left fun scan => scans ⟨_, scan⟩)

/-- **What every interleaving keeps.** Each task that was pushed is still queued, or was taken once
and by one worker; `m_activeThreadCount` is the number of workers that hold a task, and no decrement
of it wraps; a push queues what is not null; a scan takes the earliest entry that its worker may run;
and a queued fiber in state `EXEC` stays queued. -/
theorem tasks_dispatched {labels : List (Label n φ γ)}
    (executed : trace step (new n) labels = some (sched, outputs)) :
    (∀ id, (takenIds outputs).count id + (sched.queue.map Entry.id).count id =
      if id ∈ pushedIds outputs then 1 else 0) ∧
    sched.active = howMany Worker.holdsTask sched.workers ∧
    (∀ w next, sched.step (.release w) = some next → next.1.active + 1 = sched.active) ∧
    (∀ task thread next output, sched.step (.schedule task thread) = some (next, output) →
      Appends sched next output (task.map (⟨·, thread⟩)).toList) ∧
    (∀ tasks next output, sched.step (.scheduleRange tasks) = some (next, output) →
      Appends sched next output (tasks.reduceOption.map (⟨·, none⟩))) ∧
    (∀ w next output, sched.step (.scan w) = some (next, output) → Takes sched w next output) ∧
    ∀ label next entry, sched.step label = some next → entry ∈ sched.queue →
      sched.isExec entry.ft.task = true → entry ∈ next.1.queue := by
  have valid := run_valid executed
  refine ⟨?_, valid.counted.active, fun _ _ => release_active valid,
    fun _ _ _ _ => schedule_appends, fun _ _ _ => scheduleRange_appends, fun _ _ _ => scan_takes,
    fun _ _ _ stepped queued exec => exec_stays stepped queued exec⟩
  intro id
  have distinct : (pushedIds outputs).Nodup := by
    rw [valid.placed.numbered]
    exact List.nodup_range
  rw [← List.count_append, valid.placed.placed.count_eq, distinct.count]

/-- A fiber, a callback and a null in one range: two workers take one task each, the
fiber yields `READY` and is queued again, and a third worker finds it. -/
theorem tasks_dispatched_range :
    ∃ sched outputs, trace step (new 3 : Scheduler 3 Nat Nat)
        [.newFiber 7, .scheduleRange [some (.fiber 7), none, some (.cb 40)], .scan 0, .scan 1,
          .check 0, .swapIn 0, .setExec 0, .switch 0, .yield 0 true, .swapOut 0, .release 0,
          .getState 0, .requeue 0, .scan 2] = some (sched, outputs) ∧
      takenIds outputs = [0, 1, 2] ∧ sched.active = 2 ∧
      sched.active = howMany Worker.holdsTask sched.workers := by
  have executed : trace step (new 3 : Scheduler 3 Nat Nat)
      [.newFiber 7, .scheduleRange [some (.fiber 7), none, some (.cb 40)], .scan 0, .scan 1,
        .check 0, .swapIn 0, .setExec 0, .switch 0, .yield 0 true, .swapOut 0, .release 0,
        .getState 0, .requeue 0, .scan 2] = some (_, _) := rfl
  exact ⟨_, _, executed, rfl, rfl, (tasks_dispatched executed).2.1⟩

end Wyze.Scheduler
