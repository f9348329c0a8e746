/-
**No wakeup is lost, where no needed tickle is suppressed.**

`IOManager::tickle` writes to the pipe only when no worker is idle, so a task that is scheduled while
the workers are in `epoll_wait` wakes none of them: `wakeup_lost`. The rest of the protocol is sound:
`QueueSafe` and `TimerSafe` say that a wakeup is on its way, or a worker has yet to look, or there
is nothing to do in time, and every step keeps both unless it suppresses a needed tickle or
lengthens a timeout. `no_lost_wakeup` carries this over every run whose steps are `Timely`.
-/
import Wyze.Lib.Run
import Wyze.Scheduler.Basic
import Wyze.Timer.Runs

namespace Wyze

open Labelled

variable {n : Nat} {φ γ : Type*}

/-! ### Workers -/

namespace Worker

/-- The worker found no task and will block without another scan. -/
def pastScan : Worker φ γ → Bool
  | .scanned none _ | .idle | .armed .. | .blocked .. => true
  | _ => false

/-- The worker will block, or is blocked, with a timeout already computed. -/
def committed : Worker φ γ → Bool
  | .armed _ timeout => timeout != 0
  | .blocked .. => true
  | _ => false

/-- The worker's timeout ends no later than `next`. -/
def wakesBy (next : Nat) : Worker φ γ → Bool
  | .armed now timeout => decide (0 ≤ timeout ∧ now + timeout.toNat ≤ next)
  | .blocked _ (some deadline) => decide (deadline ≤ next)
  | _ => false

end Worker

namespace Pool

/-- **A wakeup is on its way**: in the pipe, or by a call of `tickle` that is still to come. -/
def Awake (pool : Pool n φ γ) : Prop :=
  0 < pool.pipe ∨ 0 < pool.tickles ∨ ∃ w, (pool.workers w).tickleMe = true

/-- Some worker's timeout ends before the first timer is due. -/
def Covered (pool : Pool n φ γ) : Prop :=
  ∀ next ∈ pool.timers.firstNext, ∃ w, (pool.workers w).wakesBy next = true

/-- **The queue is safe**: a wakeup is on its way, or a worker has yet to scan, or it is empty. -/
def QueueSafe (pool : Pool n φ γ) : Prop :=
  pool.Awake ∨ (∃ w, (pool.workers w).pastScan = false) ∨ pool.queue = []

/-- **The timers are safe**: a wakeup is on its way, or a worker has yet to ask for the next timer, or
a worker wakes in time. -/
def TimerSafe (pool : Pool n φ γ) : Prop :=
  pool.Awake ∨ (∃ w, (pool.workers w).committed = false) ∨ pool.Covered

instance (pool : Pool n φ γ) : Decidable pool.Awake :=
  inferInstanceAs (Decidable (_ ∨ _ ∨ _))

instance (pool : Pool n φ γ) : Decidable pool.Covered :=
  inferInstanceAs (Decidable (∀ next ∈ _, _))

instance (pool : Pool n φ γ) : Decidable pool.QueueSafe :=
  decidable_of_iff
    (pool.Awake ∨ (∃ w, (pool.workers w).pastScan = false) ∨ pool.queue.isEmpty = true)
    (or_congr_right (or_congr_right List.isEmpty_iff))

instance (pool : Pool n φ γ) : Decidable pool.TimerSafe :=
  inferInstanceAs (Decidable (_ ∨ _ ∨ _))

/-! ### Timely steps -/

/-- `tickle` on this pool is not suppressed while it is needed. -/
def Heeded (pool : Pool n φ γ) : Prop :=
  pool.hasIdleThreads = true → pool.QueueSafe ∧ pool.TimerSafe

instance (pool : Pool n φ γ) : Decidable pool.Heeded :=
  inferInstanceAs (Decidable (_ → _))

/-- A deadline is not moved past the first timer. -/
def InTime (pool : Pool n φ γ) (before after : Nat) : Prop :=
  after ≤ before ∨ ∀ next ∈ pool.timers.firstNext, after ≤ next

instance (pool : Pool n φ γ) (before after : Nat) : Decidable (pool.InTime before after) :=
  inferInstanceAs (Decidable (_ ∨ _))

/-- The tickle of a worker after its scan. -/
def ScanHeeded (pool : Pool n φ γ) (w : Fin n) : Worker φ γ → Prop
  | .scanned task _ => (pool.goto w (.scanned task false)).Heeded
  | _ => True

/-- `epoll_wait` is entered at `now`, or entered again after `EINTR`. -/
def EntersInTime (pool : Pool n φ γ) (now : Nat) : Worker φ γ → Prop
  | .armed armedAt timeout => pool.InTime (armedAt + timeout.toNat) (now + timeout.toNat)
  | .blocked timeout (some deadline) =>
    0 ≤ timeout ∧ pool.InTime deadline (now + timeout.toNat)
  | _ => True

/-- **When a step is timely.** A tickle that `hasIdleThreads` suppresses is not needed; a timer that
becomes the first one while `m_tickled` is still set needs no tickle; the timeout fits into an `int`;
and `epoll_wait` is not entered so late that its timeout ends after the first timer is due. -/
def Timely (pool : Pool n φ γ) : Label n φ γ → Prop
  | .tickle => ({ pool with tickles := pool.tickles - 1 } : Pool n φ γ).Heeded
  | .scanTickle w => pool.ScanHeeded w (pool.workers w)
  | .addTimer ms _ _ now _ => pool.timers.tickled = true →
    (∀ next ∈ pool.timers.firstNext, add64 now ms ≤ next) →
    pool.Awake ∨ (∃ w, (pool.workers w).committed = false) ∨
      ∃ w, (pool.workers w).wakesBy (add64 now ms) = true
  | .getNextTimer _ now => 0 ≤ epollTimeout (pool.timers.getNextTimer now).2
  | .enter w now _ | .retry w now => pool.EntersInTime now (pool.workers w)
  | _ => True

instance (pool : Pool n φ γ) (w : Fin n) : (worker : Worker φ γ) →
    Decidable (pool.ScanHeeded w worker)
  | .scanned _ _ => inferInstanceAs (Decidable (Heeded _))
  | .scan | .running _ | .idle | .armed .. | .blocked .. | .woken _ | .expired .. | .handled _
  | .drained => .isTrue trivial

instance (pool : Pool n φ γ) (now : Nat) : (worker : Worker φ γ) →
    Decidable (pool.EntersInTime now worker)
  | .armed _ _ => inferInstanceAs (Decidable (InTime ..))
  | .blocked _ (some _) => inferInstanceAs (Decidable (_ ∧ _))
  | .blocked _ none | .scan | .scanned .. | .running _ | .idle | .woken _ | .expired ..
  | .handled _ | .drained => .isTrue trivial

instance (pool : Pool n φ γ) : (label : Label n φ γ) → Decidable (pool.Timely label)
  | .tickle => inferInstanceAs (Decidable (Heeded _))
  | .scanTickle _ => inferInstanceAs (Decidable (ScanHeeded ..))
  | .addTimer .. => inferInstanceAs (Decidable (_ → (∀ next ∈ _, _) → _))
  | .getNextTimer .. => inferInstanceAs (Decidable (_ ≤ _))
  | .enter .. | .retry .. => inferInstanceAs (Decidable (EntersInTime ..))
  | .schedule _ | .scan _ | .start .. | .finish .. | .enterIdle _ | .leave .. | .listExpiredCb ..
  | .scheduleCbs _ | .drain _ | .yield _ => .isTrue trivial

/-! ### What a step of one worker keeps -/

variable {pool next : Pool n φ γ} {w : Fin n} {phase : Worker φ γ}

@[simp]
theorem goto_workers_self (pool : Pool n φ γ) (w : Fin n) (phase : Worker φ γ) :
    (pool.goto w phase).workers w = phase :=
  Function.update_self ..

theorem goto_workers_of_ne {v : Fin n} (distinct : v ≠ w) (phase : Worker φ γ) :
    (pool.goto w phase).workers v = pool.workers v :=
  Function.update_of_ne distinct ..

/-- A property that some worker has, and that `w` keeps if it is `w`, some worker still has. -/
theorem goto_exists (holds : Worker φ γ → Prop) (kept : holds (pool.workers w) → holds phase)
    (some_worker : ∃ v, holds (pool.workers v)) :
    ∃ v, holds ((pool.goto w phase).workers v) := by
  obtain ⟨v, here⟩ := some_worker
  by_cases isSelf : v = w
  · subst isSelf
    exact ⟨v, by rw [goto_workers_self]; exact kept here⟩
  · exact ⟨v, by rw [goto_workers_of_ne isSelf]; exact here⟩

/-- A worker that has yet to scan keeps the queue safe. -/
theorem queueSafe_of_worker (looks : phase.pastScan = false) : (pool.goto w phase).QueueSafe :=
  Or.inr (Or.inl ⟨w, by rw [goto_workers_self]; exact looks⟩)

/-- A worker that has yet to ask for the next timer keeps the timers safe. -/
theorem timerSafe_of_worker (asks : phase.committed = false) : (pool.goto w phase).TimerSafe :=
  Or.inr (Or.inl ⟨w, by rw [goto_workers_self]; exact asks⟩)

theorem Awake.goto (awake : pool.Awake)
    (heeded : (pool.workers w).tickleMe = true → phase.tickleMe = true) :
    (pool.goto w phase).Awake :=
  Or.imp_right (Or.imp_right (goto_exists (fun p => p.tickleMe = true) heeded)) awake

/-- A worker that was past its scan before, and heeds no tickle, keeps the queue safe. -/
theorem QueueSafe.goto (safe : pool.QueueSafe)
    (heeded : (pool.workers w).tickleMe = true → phase.tickleMe = true)
    (past : (pool.workers w).pastScan = false → phase.pastScan = false) :
    (pool.goto w phase).QueueSafe := by
  rcases safe with awake | looks | empty
  · exact Or.inl (awake.goto heeded)
  · exact Or.inr (Or.inl (goto_exists (fun p => p.pastScan = false) past looks))
  · exact Or.inr (Or.inr empty)

/-- A worker that had asked for the next timer before, and wakes no later, keeps the timers safe. -/
theorem TimerSafe.goto (safe : pool.TimerSafe)
    (heeded : (pool.workers w).tickleMe = true → phase.tickleMe = true)
    (asked : (pool.workers w).committed = false → phase.committed = false)
    (wakes : ∀ next ∈ pool.timers.firstNext, (pool.workers w).wakesBy next = true →
      phase.wakesBy next = true) : (pool.goto w phase).TimerSafe := by
  rcases safe with awake | asks | covered
  · exact Or.inl (awake.goto heeded)
  · exact Or.inr (Or.inl (goto_exists (fun p => p.committed = false) asked asks))
  · exact Or.inr (Or.inr fun next isNext =>
      goto_exists (fun p => p.wakesBy next = true) (wakes next isNext) (covered next isNext))

/-! ### The scan -/

/-- A scan that finds nothing and skips nothing pinned elsewhere has met only running fibers. -/
theorem scanQueue_none (exec : Task φ γ → Bool) (self : Nat) :
    ∀ (queue : List (FiberAndThread φ γ)), (scanQueue exec self queue).1 = none →
      (scanQueue exec self queue).2.2 = false → ∀ ft ∈ queue, exec ft.task = true
  | [], _, _ => nofun
  | ft :: rest, missed, quiet => by
    unfold scanQueue at missed quiet
    split at missed
    · rename_i elsewhere
      rw [if_pos elsewhere] at quiet
      cases quiet
    · rename_i here
      rw [if_neg here] at quiet
      split at missed
      · rename_i running
        rw [if_pos running] at quiet
        exact List.forall_mem_cons.mpr
          ⟨running, scanQueue_none exec self rest missed quiet⟩
      · cases missed

theorem scanQueue_left (exec : Task φ γ → Bool) (self : Nat) :
    ∀ (queue : List (FiberAndThread φ γ)), (scanQueue exec self queue).1 = none →
      (scanQueue exec self queue).2.1 = queue
  | [], _ => rfl
  | ft :: rest, missed => by
    unfold scanQueue at missed ⊢
    split at missed
    · rename_i elsewhere
      rw [if_pos elsewhere]
      exact congrArg (ft :: ·) (scanQueue_left exec self rest missed)
    · rename_i here
      rw [if_neg here]
      split at missed
      · rename_i running
        rw [if_pos running]
        exact congrArg (ft :: ·) (scanQueue_left exec self rest missed)
      · cases missed

/-! ### Deadlines -/

/-- The timeout of a worker that has just asked for the next timer ends in time. -/
theorem armed_wakesBy (timers : TimerManager γ) (now : Nat)
    (fits : 0 ≤ epollTimeout (timers.getNextTimer now).2) :
    ∀ next ∈ timers.firstNext,
      (Worker.armed now (epollTimeout (timers.getNextTimer now).2) : Worker φ γ).committed = false ∨
        (Worker.armed now (epollTimeout (timers.getNextTimer now).2) : Worker φ γ).wakesBy next =
          true := by
  intro next isNext
  have isNext' : timers.firstNext = some next := isNext
  have bound := epollTimeout_le (timers.getNextTimer now).2
  have value : (timers.getNextTimer now).2 = if now ≥ next then 0 else next - now := by
    simp only [TimerManager.getNextTimer, isNext']
  by_cases due : now ≥ next
  · left
    rw [value, if_pos due]
    rfl
  · right
    rw [value, if_neg due] at bound fits ⊢
    exact decide_eq_true ⟨fits, by omega⟩

/-- Entering `epoll_wait` in time keeps the worker waking in time. -/
theorem enters_wakesBy {timeout : Int} {now : Nat} (fits : 0 ≤ timeout) {before next : Nat}
    (inTime : pool.InTime before (now + timeout.toNat)) (isNext : next ∈ pool.timers.firstNext)
    (wakes : before ≤ next) :
    (Worker.blocked timeout (Worker.deadlineAt now timeout) : Worker φ γ).wakesBy next = true := by
  unfold Worker.deadlineAt
  rw [if_neg (not_lt.mpr fits)]
  exact decide_eq_true (inTime.elim (fun sooner => sooner.trans wakes) fun early => early next isNext)

/-! ### Callers -/

/-- **The invariant.** -/
structure Safe (pool : Pool n φ γ) : Prop where
  timers : pool.timers.WellFormed
  queue : pool.QueueSafe
  timer : pool.TimerSafe

theorem new_safe (now : Nat) : (new (n + 1) now : Pool (n + 1) φ γ).Safe where
  timers := TimerManager.new_wellFormed now
  queue := Or.inr (Or.inr rfl)
  timer := Or.inr (Or.inl ⟨0, rfl⟩)

/-- A scheduled task is announced, or the queue was not empty and therefore safe already. -/
theorem schedule_queueSafe (safe : pool.QueueSafe) (task : Option (FiberAndThread φ γ)) :
    (pool.schedule task).QueueSafe := by
  by_cases empty : pool.queue.isEmpty = true
  · refine Or.inl (Or.inr (Or.inl ?_))
    unfold schedule
    rw [if_pos empty]
    exact Nat.succ_pos _
  · have same : (pool.schedule task).tickles = pool.tickles := if_neg empty
    rcases safe with awake | looks | isEmpty
    · exact Or.inl (Or.imp_right (Or.imp_left fun coming => same.symm ▸ coming) awake)
    · exact Or.inr (Or.inl looks)
    · exact absurd (List.isEmpty_iff.mpr isEmpty) empty

theorem schedule_timerSafe (safe : pool.TimerSafe) (task : Option (FiberAndThread φ γ)) :
    (pool.schedule task).TimerSafe := by
  have more : pool.tickles ≤ (pool.schedule task).tickles := by
    unfold schedule
    dsimp only
    split <;> omega
  exact Or.imp_left (Or.imp_right (Or.imp_left fun coming => coming.trans_le more)) safe

/-- A tickle that is heeded keeps both: it is not needed, or it writes to the pipe. -/
theorem tickle_safe (heeded : pool.Heeded) : pool.tickle.QueueSafe ∧ pool.tickle.TimerSafe := by
  unfold tickle
  split
  · rename_i idle
    exact heeded idle
  · exact ⟨Or.inl (Or.inl (Nat.succ_pos _)), Or.inl (Or.inl (Nat.succ_pos _))⟩

/-- A worker that has yet to scan and to ask for the next timer keeps both safe. -/
theorem safe_of_worker (timers : pool.timers.WellFormed) (looks : phase.pastScan = false)
    (asks : phase.committed = false) : (pool.goto w phase).Safe :=
  ⟨timers, queueSafe_of_worker looks, timerSafe_of_worker asks⟩

theorem hasIdleThreads_goto (same : (pool.workers w).isIdle = phase.isIdle) :
    (pool.goto w phase).hasIdleThreads = pool.hasIdleThreads := by
  unfold hasIdleThreads
  refine decide_eq_decide.mpr (exists_congr fun v => ?_)
  by_cases isSelf : v = w
  · subst isSelf
    rw [goto_workers_self, same]
  · rw [goto_workers_of_ne isSelf]

/-- A tickle before or after a worker that is not idle moves on. -/
theorem tickle_goto (same : (pool.workers w).isIdle = phase.isIdle) :
    (pool.goto w phase).tickle = pool.tickle.goto w phase := by
  unfold tickle
  rw [hasIdleThreads_goto same]
  split <;> rfl

theorem tickle_timers (pool : Pool n φ γ) : pool.tickle.timers = pool.timers := by
  unfold tickle
  split <;> rfl

/-- **Arming**: what `getNextTimer` returned does not end after the first timer is due. -/
theorem getNextTimer_safe (safe : pool.Safe) (here : pool.workers w = .idle) (now : Nat)
    (fits : 0 ≤ epollTimeout (pool.timers.getNextTimer now).2) :
    (({ pool with timers := (pool.timers.getNextTimer now).1 } : Pool n φ γ).goto w
      (.armed now (epollTimeout (pool.timers.getNextTimer now).2))).Safe := by
  have queue : ({ pool with timers := (pool.timers.getNextTimer now).1 } :
      Pool n φ γ).QueueSafe := safe.queue
  refine ⟨⟨safe.timers.ordered, safe.timers.once, safe.timers.apart, safe.timers.live⟩,
    queue.goto ?_ ?_, ?_⟩
  · show (pool.workers w).tickleMe = true → _
    rw [here]
    exact nofun
  · show (pool.workers w).pastScan = false → _
    rw [here]
    exact nofun
  · by_cases asks : (Worker.armed now (epollTimeout (pool.timers.getNextTimer now).2) :
        Worker φ γ).committed = false
    · exact timerSafe_of_worker asks
    · refine Or.inr (Or.inr fun next isNext => ⟨w, ?_⟩)
      rw [goto_workers_self]
      exact (armed_wakesBy pool.timers now fits next isNext).resolve_left asks

/-- **Blocking**, by a worker that was past its scan and had asked for the next timer: it is to wake no
later than it was before. -/
theorem Safe.block (safe : pool.Safe) {timeout : Int} {now : Nat}
    (heeded : (pool.workers w).tickleMe = false) (past : (pool.workers w).pastScan = true)
    (asked : (pool.workers w).committed = true)
    (wakes : ∀ next ∈ pool.timers.firstNext, (pool.workers w).wakesBy next = true →
      (Worker.blocked timeout (Worker.deadlineAt now timeout) : Worker φ γ).wakesBy next = true) :
    (pool.goto w (.blocked timeout (Worker.deadlineAt now timeout))).Safe := by
  have unheeded : (pool.workers w).tickleMe ≠ true := by simp [heeded]
  have unscanned : (pool.workers w).pastScan ≠ false := by simp [past]
  have uncommitted : (pool.workers w).committed ≠ false := by simp [asked]
  exact ⟨safe.timers, safe.queue.goto (absurd · unheeded) (absurd · unscanned),
    safe.timer.goto (absurd · unheeded) (absurd · uncommitted) wakes⟩

variable [DecidableEq γ] {label : Label n φ γ}

/-- A step of a caller keeps the invariant. -/
theorem callerStep_safe (safe : pool.Safe) (timely : pool.Timely label)
    (stepped : pool.callerStep label = some next) : next.Safe := by
  cases label with
  | schedule task =>
      cases stepped
      exact ⟨safe.timers, schedule_queueSafe safe.queue task, schedule_timerSafe safe.timer task⟩
  | addTimer ms cb recurring now addr =>
      rw [callerStep] at stepped
      split at stepped
      · cases stepped
      rename_i occupied
      have fresh := Option.not_isSome_iff_eq_none.mp occupied
      have kept := (TimerManager.addTimer_spec safe.timers fresh ms cb recurring now).1
      have first := TimerManager.addTimer_firstNext safe.timers fresh ms cb recurring now
      generalize pool.timers.addTimer ms cb recurring now addr = added at stepped kept first
      obtain ⟨timers, reply⟩ := added
      cases stepped
      have more : pool.tickles ≤ if reply = .added true then pool.tickles + 1 else pool.tickles := by
        split <;> omega
      refine ⟨kept, Or.imp_left (Or.imp_right (Or.imp_left fun coming => coming.trans_le more))
        safe.queue, ?_⟩
      rcases first with same | ⟨isFirst, least, announced⟩
      · rcases safe.timer with awake | asks | covered
        · exact Or.inl (Or.imp_right (Or.imp_left fun coming => coming.trans_le more) awake)
        · exact Or.inr (Or.inl asks)
        · refine Or.inr (Or.inr fun due isDue => covered due ?_)
          rw [← same]
          exact isDue
      · by_cases unseen : pool.timers.tickled = true
        · rcases timely unseen least with awake | asks | ⟨v, wakes⟩
          · exact Or.inl (Or.imp_right (Or.imp_left fun coming => coming.trans_le more) awake)
          · exact Or.inr (Or.inl asks)
          · refine Or.inr (Or.inr fun due isDue => ⟨v, ?_⟩)
            obtain rfl : add64 now ms = due := Option.some.inj (isFirst.symm.trans isDue)
            exact wakes
        · refine Or.inl (Or.inr (Or.inl ?_))
          show 0 < if reply = .added true then pool.tickles + 1 else pool.tickles
          rw [if_pos (announced.resolve_left unseen)]
          exact Nat.succ_pos _
  | tickle =>
      rw [callerStep] at stepped
      split at stepped
      · cases stepped
      · cases stepped
        obtain ⟨queue, timer⟩ := tickle_safe timely
        refine ⟨?_, queue, timer⟩
        unfold tickle
        split <;> exact safe.timers
  | _ => cases stepped

/-! ### Workers' steps -/

variable [DecidableEq φ]

/-- A fiber in state `EXEC` is on a worker. -/
theorem running_of_isExec {task : Task φ γ} (exec : pool.isExec task = true) :
    ∃ w fiber, pool.workers w = .running fiber := by
  cases task with
  | fiber fiber =>
      obtain ⟨w, here⟩ := of_decide_eq_true exec
      exact ⟨w, fiber, here⟩
  | cb cb => cases exec

/-- **The scan** leaves the queue safe: the worker has a task, or is to tickle, or the queue is empty
but for running fibers. -/
theorem scan_queueSafe (here : pool.workers w = .scan) (left : List (FiberAndThread φ γ))
    {task : Option (Task φ γ)} {tickleMe : Bool}
    (scanned : scanQueue pool.isExec w pool.queue = (task, left, tickleMe)) :
    (({ pool with queue := left } : Pool n φ γ).goto w (.scanned task tickleMe)).QueueSafe := by
  cases task with
  | some task => exact queueSafe_of_worker rfl
  | none =>
      cases tickleMe with
      | true => exact Or.inl (Or.inr (Or.inr ⟨w, by rw [goto_workers_self]; rfl⟩))
      | false =>
          have missed : (scanQueue pool.isExec w pool.queue).1 = none := by rw [scanned]
          have quiet : (scanQueue pool.isExec w pool.queue).2.2 = false := by rw [scanned]
          have same : left = pool.queue := by
            rw [← scanQueue_left pool.isExec w pool.queue missed, scanned]
          have running := scanQueue_none pool.isExec w pool.queue missed quiet
          subst same
          cases queued : pool.queue with
          | nil => exact Or.inr (Or.inr rfl)
          | cons ft rest =>
              obtain ⟨v, fiber, runs⟩ :=
                running_of_isExec (running ft (by rw [queued]; exact List.mem_cons_self))
              have distinct : v ≠ w := by
                rintro rfl
                rw [here] at runs
                cases runs
              exact Or.inr (Or.inl ⟨v, by rw [goto_workers_of_ne distinct]; exact runs ▸ rfl⟩)

/-- **A worker's step** keeps the invariant. -/
theorem workerStep_safe (safe : pool.Safe) (timely : pool.Timely label)
    (isWorker : label.worker = some w) (stepped : pool.workerStep label (pool.workers w) = some next) :
    next.Safe := by
  generalize here : pool.workers w = phase at stepped
  cases workerStep_cases isWorker stepped with
  | scan scanned => exact ⟨safe.timers, scan_queueSafe here _ scanned, timerSafe_of_worker rfl⟩
  | @scanTickle task =>
      have heeded : (pool.goto w (.scanned task false)).Heeded := by
        have timely' : pool.ScanHeeded w (pool.workers w) := timely
        rwa [here] at timely'
      obtain ⟨queue, timer⟩ := tickle_safe heeded
      rw [tickle_goto (by rw [here]; rfl)] at queue timer
      refine ⟨?_, queue, timer⟩
      show pool.tickle.timers.WellFormed
      rw [tickle_timers]
      exact safe.timers
  | drop => exact safe_of_worker safe.timers rfl rfl
  | start => exact safe_of_worker safe.timers rfl rfl
  | startCb => exact safe_of_worker safe.timers rfl rfl
  | finishReady =>
      have free : (pool.goto w .scan).Safe := safe_of_worker safe.timers rfl rfl
      exact ⟨free.timers, schedule_queueSafe free.queue _, schedule_timerSafe free.timer _⟩
  | finish => exact safe_of_worker safe.timers rfl rfl
  | enterIdle =>
      refine ⟨safe.timers, safe.queue.goto ?_ ?_, timerSafe_of_worker rfl⟩
      · rw [here]
        exact nofun
      · rw [here]
        exact nofun
  | getNextTimer => exact getNextTimer_safe safe here _ timely
  | poll => exact safe_of_worker safe.timers rfl rfl
  | @enter now armedAt _ timeout waits =>
      have inTime : pool.InTime (armedAt + timeout.toNat) (now + timeout.toNat) := by
        have timely' : pool.EntersInTime now (pool.workers w) := timely
        rwa [here] at timely'
      refine safe.block (by rw [here]; rfl) (by rw [here]; rfl) ?_ fun next isNext wakes => ?_
      · rw [here]
        exact bne_iff_ne.mpr waits
      · rw [here] at wakes
        obtain ⟨fits, early⟩ := of_decide_eq_true wakes
        exact enters_wakesBy fits inTime isNext early
  | @retry now timeout deadline =>
      refine safe.block (by rw [here]; rfl) (by rw [here]; rfl) (by rw [here]; rfl)
        fun next isNext wakes => ?_
      rw [here] at wakes
      cases deadline with
      | none => cases wakes
      | some deadline =>
          have timely' : pool.EntersInTime now (pool.workers w) := timely
          rw [here] at timely'
          exact enters_wakesBy timely'.1 timely'.2 isNext (of_decide_eq_true wakes)
  | leave => exact safe_of_worker safe.timers rfl rfl
  | listExpiredCb =>
      exact safe_of_worker (TimerManager.listExpiredCb_spec safe.timers _ _).1 rfl rfl
  | scheduleCbs => exact safe_of_worker safe.timers rfl rfl
  | drain => exact safe_of_worker safe.timers rfl rfl
  | yield => exact safe_of_worker safe.timers rfl rfl

/-! ### Runs -/

theorem step_safe {next : Pool n φ γ × Unit} (safe : pool.Safe) (timely : pool.Timely label)
    (stepped : pool.step label = some next) : next.1.Safe := by
  unfold step at stepped
  split at stepped
  · obtain ⟨reached, stepped', rfl⟩ := Option.map_eq_some_iff.mp stepped
    exact callerStep_safe safe timely stepped'
  · rename_i w isWorker
    obtain ⟨reached, stepped', rfl⟩ := Option.map_eq_some_iff.mp stepped
    exact workerStep_safe safe timely isWorker stepped'

/-- **No wakeup is lost.** Take a run of a pool whose steps are all timely. When all workers are blocked
in `epoll_wait`, the pipe is empty and no caller has yet to tickle, then the task queue is empty,
and some worker's `epoll_wait` ends no later than the first timer is due. -/
theorem no_lost_wakeup (n now : Nat) (labels : List (Label (n + 1) φ γ))
    {final : Pool (n + 1) φ γ} {outputs : List Unit}
    (executed : trace step (new (n + 1) now) labels = some (final, outputs))
    (timely : Meets step Timely (new (n + 1) now) labels)
    (blocked : ∀ w, ∃ timeout deadline, final.workers w = .blocked timeout deadline)
    (empty : final.pipe = 0) (settled : final.tickles = 0) :
    final.queue = [] ∧ ∀ next, final.timers.firstNext = some next →
      ∃ w timeout deadline, final.workers w = .blocked timeout (some deadline) ∧ deadline ≤ next := by
  have safe : final.Safe :=
    trace_invariant Timely (fun _ _ _ safe timely stepped => step_safe safe timely stepped) labels
      (new_safe now) timely executed
  have asleep : ¬ final.Awake := by
    rintro (piped | coming | ⟨w, tickles⟩)
    · omega
    · omega
    · obtain ⟨timeout, deadline, here⟩ := blocked w
      rw [here] at tickles
      cases tickles
  constructor
  · rcases safe.queue with awake | ⟨w, looks⟩ | isEmpty
    · exact absurd awake asleep
    · obtain ⟨timeout, deadline, here⟩ := blocked w
      rw [here] at looks
      cases looks
    · exact isEmpty
  · intro next isNext
    rcases safe.timer with awake | ⟨w, asks⟩ | covered
    · exact absurd awake asleep
    · obtain ⟨timeout, deadline, here⟩ := blocked w
      rw [here] at asks
      cases asks
    · obtain ⟨w, wakes⟩ := covered next isNext
      obtain ⟨timeout, deadline, here⟩ := blocked w
      rw [here] at wakes
      cases deadline with
      | none => cases wakes
      | some deadline => exact ⟨w, timeout, deadline, here, of_decide_eq_true wakes⟩

/-- A task and a timer that come while one of two workers is blocked and the other has yet to scan. -/
theorem no_lost_wakeup_scanning :
    ∃ final outputs, trace step (new 2 0 : Pool 2 Unit Unit)
        [.scan 1, .enterIdle 1, .getNextTimer 1 100, .enter 1 100 false,
          .schedule (some { task := .cb (), thread := none }), .tickle,
          .addTimer 50 () false 100 7, .tickle, .scan 0, .start 0 () false, .finish 0 false,
          .scan 0, .enterIdle 0, .getNextTimer 0 101, .enter 0 101 false] =
        some (final, outputs) ∧
      final.queue = [] ∧ final.timers.firstNext = some 150 ∧
      ∃ w timeout deadline, final.workers w = .blocked timeout (some deadline) ∧
        deadline ≤ 150 := by
  have executed : trace step (new 2 0 : Pool 2 Unit Unit)
      [.scan 1, .enterIdle 1, .getNextTimer 1 100, .enter 1 100 false,
        .schedule (some { task := .cb (), thread := none }), .tickle,
        .addTimer 50 () false 100 7, .tickle, .scan 0, .start 0 () false, .finish 0 false,
        .scan 0, .enterIdle 0, .getNextTimer 0 101, .enter 0 101 false] = some (_, _) := rfl
  obtain ⟨empty, wakes⟩ := no_lost_wakeup 1 0 _ executed (by decide +kernel)
    (Fin.forall_fin_two.mpr ⟨⟨_, _, rfl⟩, ⟨_, _, rfl⟩⟩) rfl rfl
  exact ⟨_, _, executed, empty, rfl, wakes 150 rfl⟩

/-- **A wakeup is lost.** The only worker blocks in `epoll_wait`; a task is then scheduled, and since
that worker is idle, nothing is written to the pipe. -/
theorem wakeup_lost :
    ∃ final outputs, trace step (new 1 0 : Pool 1 Unit Unit)
        [.scan 0, .enterIdle 0, .getNextTimer 0 100, .enter 0 100 false,
          .schedule (some { task := .cb (), thread := none }), .tickle] = some (final, outputs) ∧
      final.workers 0 = .blocked 5000 (some 5100) ∧ final.pipe = 0 ∧ final.tickles = 0 ∧
      final.queue = [{ task := .cb (), thread := none }] :=
  ⟨_, _, rfl, rfl, rfl, rfl, rfl⟩

end Pool

end Wyze
