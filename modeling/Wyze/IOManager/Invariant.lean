/-
**Four copies of one fact.**

Which events of an fd are registered is kept in the bits of its `FdContext`, in the two
`EventContext`s, in `m_pendingEvent` and in the kernel. `Outcome.Sound` says what one critical
section does to a context that is `Right`, `WellFormed` joins the copies for the whole manager, and
`events_agree` carries that over every run.
-/
import Mathlib.Algebra.BigOperators.Group.List.Basic
import Mathlib.Algebra.Ring.Int.Defs
import Wyze.IOManager.Basic
import Wyze.Lib.Run

namespace Wyze

variable {φ γ : Type*}

/-! ### Bits -/

namespace Events

variable {events other : Events} {event : Event}

@[simp]
theorem has_none (event : Event) : none.has event = false := by
  cases event <;> rfl

@[simp]
theorem has_add (events : Events) (event asked : Event) :
    (events.add event).has asked = (decide (asked = event) || events.has asked) := by
  cases event <;> cases asked <;> rfl

@[simp]
theorem has_drop (events : Events) (event asked : Event) :
    (events.drop event).has asked = (!decide (asked = event) && events.has asked) := by
  cases event <;> cases asked <;> rfl

theorem any_of_has (registered : events.has event = true) : events.any = true := by
  cases event <;> simp_all [has, any]

theorem any_eq_false : events.any = false ↔ events = none := by
  rcases events with ⟨_ | _, _ | _⟩ <;> decide

theorem any_add (events : Events) (event : Event) : (events.add event).any = true :=
  any_of_has (show (events.add event).has event = true by simp)

theorem count_add (fresh : events.has event = false) :
    (events.add event).count = events.count + 1 := by
  rcases events with ⟨_ | _, _ | _⟩ <;> cases event <;> revert fresh <;> decide

theorem count_drop (registered : events.has event = true) :
    (events.drop event).count + 1 = events.count := by
  rcases events with ⟨_ | _, _ | _⟩ <;> cases event <;> revert registered <;> decide

end Events

/-! ### Contexts -/

/-- A waiting context: the scheduler, and either a fiber or a callback. -/
def EventContext.Armed (ev : EventContext φ γ) : Prop :=
  ev.scheduler = true ∧ ev.fiber.isSome ≠ ev.cb.isSome

namespace FdContext

variable {ctx : FdContext φ γ} {event : Event}

/-- **The bits agree with the contexts.** -/
def Right (ctx : FdContext φ γ) : Prop :=
  ∀ event, if ctx.events.has event then (ctx.getContext event).Armed
    else ctx.getContext event = .empty

@[simp]
theorem getContext_setContext (ctx : FdContext φ γ) (event asked : Event) (ev : EventContext φ γ) :
    (ctx.setContext event ev).getContext asked =
      if asked = event then ev else ctx.getContext asked := by
  cases event <;> cases asked <;> rfl

@[simp]
theorem setContext_events (ctx : FdContext φ γ) (event : Event) (ev : EventContext φ γ) :
    (ctx.setContext event ev).events = ctx.events := by
  cases event <;> rfl

@[simp]
theorem setContext_fd (ctx : FdContext φ γ) (event : Event) (ev : EventContext φ γ) :
    (ctx.setContext event ev).fd = ctx.fd := by
  cases event <;> rfl

@[simp]
theorem getContext_events (ctx : FdContext φ γ) (events : Events) (asked : Event) :
    ({ ctx with events := events } : FdContext φ γ).getContext asked = ctx.getContext asked := by
  cases asked <;> rfl

theorem new_right (fd : Nat) : (new fd : FdContext φ γ).Right := by
  intro event
  cases event <;> rfl

/-- The context without one of its events. -/
def release (ctx : FdContext φ γ) (event : Event) : FdContext φ γ :=
  ({ ctx with events := ctx.events.drop event } : FdContext φ γ).setContext event .empty

@[simp]
theorem release_events (ctx : FdContext φ γ) (event : Event) :
    (ctx.release event).events = ctx.events.drop event := setContext_events ..

@[simp]
theorem release_fd (ctx : FdContext φ γ) (event : Event) : (ctx.release event).fd = ctx.fd :=
  setContext_fd ..

theorem release_right (right : ctx.Right) (event : Event) : (ctx.release event).Right := by
  intro asked
  have before := right asked
  by_cases same : asked = event
  · simp [release, same]
  · simpa [release, same] using before

/-- The context with one more event. -/
theorem arm_right (right : ctx.Right) {ev : EventContext φ γ} (armed : ev.Armed) :
    (({ ctx with events := ctx.events.add event } : FdContext φ γ).setContext event ev).Right := by
  intro asked
  have before := right asked
  by_cases same : asked = event
  · simpa [same] using armed
  · simpa [same] using before

/-- **`triggerEvent`** of a registered event leaves its context empty, as `resetContext` does. -/
theorem triggerEvent_spec (right : ctx.Right) (registered : ctx.events.has event = true) :
    ∃ scheduled, ctx.triggerEvent event = .ok (ctx.release event, scheduled) := by
  have armed := right event
  rw [if_pos registered] at armed
  obtain ⟨scheduler, one⟩ := armed
  rw [triggerEvent, if_neg (by simp [registered])]
  simp only [getContext_events, scheduler, Bool.true_eq_false, if_false]
  generalize evEq : ctx.getContext event = ev at one scheduler
  obtain ⟨_, fiber, cb⟩ := ev
  cases cb with
  | some cb =>
      have noFiber : fiber = none := by simpa using one
      subst noFiber
      exact ⟨_, rfl⟩
  | none => exact ⟨_, rfl⟩

theorem triggerEvent_unregistered (unregistered : ctx.events.has event = false) :
    ctx.triggerEvent event = .error .notRegistered := if_pos unregistered

end FdContext

/-! ### Critical sections -/

/-- **What a critical section does** to a context and the counter. -/
structure Outcome.Sound (ctx : FdContext φ γ) (pending : Int) (outcome : Outcome φ γ) : Prop where
  right : outcome.context.Right
  same_fd : outcome.context.fd = ctx.fd
  pending_eq : outcome.pending = pending + outcome.context.events.count - ctx.events.count
  silent : outcome.ctl = none → outcome.context = ctx
  refused : ∀ ctl, outcome.ctl = some ctl → ctl.ok = false → outcome.context = ctx
  op_add : ∀ ctl, outcome.ctl = some ctl → (ctl.op = .add ↔ ctx.events.any = false)
  kernel : ∀ ctl, outcome.ctl = some ctl → ctl.ok = true →
    ctl.events = outcome.context.events ∧ (ctl.op = .del ↔ outcome.context.events.any = false)

namespace FdContext

variable {ctx : FdContext φ γ} {event : Event} {pending : Int}

theorem unchanged_sound (right : ctx.Right) (pending : Int) (ok : Bool) :
    (ctx.unchanged pending none ok).Sound ctx pending where
  right := right
  same_fd := rfl
  pending_eq := by simp [unchanged]
  silent _ := rfl
  refused := nofun
  op_add := nofun
  kernel := nofun

theorem refused_sound (right : ctx.Right) (pending : Int) {ctl : Ctl} (failed : ctl.ok = false)
    (op_add : ctl.op = .add ↔ ctx.events.any = false) (ok : Bool) :
    (ctx.unchanged pending (some ctl) ok).Sound ctx pending where
  right := right
  same_fd := rfl
  pending_eq := by simp [unchanged]
  silent _ := rfl
  refused _ _ _ := rfl
  op_add := by
    rintro _ ⟨⟩
    exact op_add
  kernel := by
    rintro _ ⟨⟩ success
    rw [failed] at success
    cases success

/-- An outcome of a section whose `epoll_ctl` succeeds. -/
theorem accepted_sound {outcome : Outcome φ γ} {ctl : Ctl} (right : outcome.context.Right)
    (same_fd : outcome.context.fd = ctx.fd)
    (pending_eq : outcome.pending = pending + outcome.context.events.count - ctx.events.count)
    (isCtl : outcome.ctl = some ctl) (success : ctl.ok = true)
    (op_add : ctl.op = .add ↔ ctx.events.any = false)
    (kernel : ctl.events = outcome.context.events ∧
      (ctl.op = .del ↔ outcome.context.events.any = false)) : outcome.Sound ctx pending where
  right := right
  same_fd := same_fd
  pending_eq := pending_eq
  silent := by
    rw [isCtl]
    nofun
  refused := by
    rw [isCtl]
    rintro _ ⟨⟩ failed
    rw [success] at failed
    cases failed
  op_add := by
    rw [isCtl]
    rintro _ ⟨⟩
    exact op_add
  kernel := by
    rw [isCtl]
    rintro _ ⟨⟩ _
    exact kernel

theorem addEvent_spec (right : ctx.Right) (pending : Int) (event : Event) (cb : Option γ) (self : φ)
    (exec ctlOk : Bool) :
    (∃ outcome, ctx.addEvent pending event cb self exec ctlOk = .ok outcome ∧
      outcome.Sound ctx pending) ∨
      ctx.addEvent pending event cb self exec ctlOk = .error .addedTwice ∨
      ctx.addEvent pending event cb self exec ctlOk = .error .fiberNotExec := by
  rw [addEvent]
  split
  · exact Or.inr (Or.inl rfl)
  rename_i unregistered
  have fresh := Bool.eq_false_iff.mpr unregistered
  have empty := right event
  rw [if_neg unregistered] at empty
  have op_add : (if ctx.events.any then CtlOp.mod else .add) = .add ↔ ctx.events.any = false := by
    cases ctx.events.any <;> decide
  have op_del : (if ctx.events.any then CtlOp.mod else .add) ≠ .del := by
    cases ctx.events.any <;> decide
  generalize (if ctx.events.any then CtlOp.mod else .add) = op at op_add op_del
  simp only [empty, EventContext.empty, Option.isSome_none, Bool.or_self, Bool.false_eq_true,
    if_false]
  split
  · rename_i failed
    exact Or.inl ⟨_, rfl, refused_sound right pending failed op_add false⟩
  · rename_i success
    split
    · exact Or.inr (Or.inr rfl)
    · refine Or.inl ⟨_, rfl, ?_⟩
      have more := Events.count_add fresh
      refine accepted_sound (arm_right right ⟨rfl, ?_⟩) (setContext_fd ..) ?_ rfl
        (by simpa using success) op_add ?_
      · cases cb <;> simp
      · simp only [setContext_events, more]
        omega
      · simp only [setContext_events, Events.any_add, Bool.true_eq_false, iff_false, true_and]
        exact op_del

theorem leaveCtl_op_del (left : Events) (ctlOk : Bool) :
    (leaveCtl left ctlOk).op = .del ↔ left.any = false := by
  cases remaining : left.any <;> simp [leaveCtl, remaining]

theorem leaveCtl_op_add (registered : ctx.events.any = true) (left : Events) (ctlOk : Bool) :
    (leaveCtl left ctlOk).op = .add ↔ ctx.events.any = false := by
  cases remaining : left.any <;> simp [leaveCtl, remaining, registered]

/-- The two functions that remove one event leave the same context. -/
theorem release_sound (right : ctx.Right) (pending : Int) (registered : ctx.events.has event = true)
    (scheduled : List (Task φ γ)) :
    ({ context := ctx.release event, pending := pending - 1,
       ctl := some (leaveCtl (ctx.events.drop event) true), scheduled := scheduled, ok := true } :
      Outcome φ γ).Sound ctx pending := by
  have less := Events.count_drop registered
  refine accepted_sound (release_right right event) (release_fd ctx event) ?_ rfl rfl
    (leaveCtl_op_add (Events.any_of_has registered) _ _) ⟨(release_events ..).symm, ?_⟩
  · simp only [release_events]
    omega
  · rw [release_events]
    exact leaveCtl_op_del _ _

/-- What the two have in common, with what they do for an event that is registered. -/
theorem removal_spec (right : ctx.Right) (pending : Int) (event : Event) (ctlOk : Bool)
    {released : Except Assertion (Outcome φ γ)}
    (removes : ctx.events.has event = true → ctlOk = true → ∃ scheduled, released = .ok
      { context := ctx.release event, pending := pending - 1,
        ctl := some (leaveCtl (ctx.events.drop event) true), scheduled := scheduled, ok := true }) :
    ∃ outcome, (if ctx.events.has event = false then .ok (ctx.unchanged pending none false)
      else if ctlOk = false then
        .ok (ctx.unchanged pending (some (leaveCtl (ctx.events.drop event) ctlOk)) false)
      else released) = .ok outcome ∧ outcome.Sound ctx pending := by
  split
  · exact ⟨_, rfl, unchanged_sound right pending false⟩
  rename_i notUnregistered
  have registered := Bool.not_eq_false _ ▸ notUnregistered
  split
  · rename_i failed
    exact ⟨_, rfl, refused_sound right pending failed
      (leaveCtl_op_add (Events.any_of_has registered) _ _) false⟩
  · rename_i success
    obtain ⟨scheduled, rfl⟩ := removes registered (by simpa using success)
    exact ⟨_, rfl, release_sound right pending registered scheduled⟩

theorem delEvent_spec (right : ctx.Right) (pending : Int) (event : Event) (ctlOk : Bool) :
    ∃ outcome, ctx.delEvent pending event ctlOk = .ok outcome ∧ outcome.Sound ctx pending := by
  refine removal_spec right pending event ctlOk fun _ success => ⟨[], ?_⟩
  rw [success]
  rfl

theorem canceEvent_spec (right : ctx.Right) (pending : Int) (event : Event) (ctlOk : Bool) :
    ∃ outcome, ctx.canceEvent pending event ctlOk = .ok outcome ∧ outcome.Sound ctx pending := by
  refine removal_spec right pending event ctlOk fun registered success => ?_
  obtain ⟨scheduled, triggered⟩ := triggerEvent_spec right registered
  refine ⟨scheduled, ?_⟩
  rw [triggered, success]
  rfl

/-- **Triggering what is registered** removes it and counts it off. -/
theorem triggerIf_spec (outcome : Outcome φ γ) (right : outcome.context.Right) (wanted : Bool)
    (event : Event) (registered : wanted = true → outcome.context.events.has event = true) :
    ∃ next, triggerIf wanted event outcome = .ok next ∧ next.context.Right ∧
      next.context.fd = outcome.context.fd ∧
      next.context.events =
        (if wanted then outcome.context.events.drop event else outcome.context.events) ∧
      next.pending = outcome.pending + next.context.events.count - outcome.context.events.count ∧
      next.ctl = outcome.ctl := by
  cases wanted with
  | false => exact ⟨outcome, rfl, right, rfl, rfl, by omega, rfl⟩
  | true =>
      obtain ⟨scheduled, triggered⟩ := triggerEvent_spec right (registered rfl)
      have less := Events.count_drop (registered rfl)
      refine ⟨{ outcome with
          context := outcome.context.release event
          pending := outcome.pending - 1
          scheduled := outcome.scheduled ++ scheduled },
        by rw [triggerIf, if_pos rfl, triggered]; rfl, release_right right event,
        release_fd .., release_events .., ?_, rfl⟩
      simp only [release_events]
      omega

/-- The two triggers of `canceAll` and of the idle loop, when both find their event registered. -/
theorem trigger_both (right : ctx.Right) (pending : Int) (ctl : Ctl) (wanted : Events)
    (registered : ∀ event, wanted.has event = true → ctx.events.has event = true) :
    ∃ afterRead outcome,
      triggerIf wanted.read .read (ctx.unchanged pending (some ctl) true) = .ok afterRead ∧
      afterRead.context.events.write = ctx.events.write ∧
      triggerIf wanted.write .write afterRead = .ok outcome ∧
      outcome.context.Right ∧ outcome.context.fd = ctx.fd ∧
      outcome.context.events = ctx.events.diff wanted ∧
      outcome.pending = pending + outcome.context.events.count - ctx.events.count ∧
      outcome.ctl = some ctl := by
  obtain ⟨afterRead, first, right', fd', events', pending', ctl'⟩ :=
    triggerIf_spec (ctx.unchanged pending (some ctl) true) right wanted.read .read
      (registered .read)
  have kept : afterRead.context.events.write = ctx.events.write := by
    rw [events']
    split <;> rfl
  obtain ⟨outcome, second, right'', fd'', events'', pending'', ctl''⟩ :=
    triggerIf_spec afterRead right' wanted.write .write fun asked => by
      rw [Events.has, kept]
      exact registered .write asked
  refine ⟨afterRead, outcome, first, kept, second, right'', fd''.trans fd', ?_, ?_,
    ctl''.trans ctl'⟩
  · rw [events'', events', unchanged]
    rcases ctx.events with ⟨_ | _, _ | _⟩ <;> rcases wanted with ⟨_ | _, _ | _⟩ <;> rfl
  · rw [pending'', pending']
    simp only [unchanged]
    omega

theorem canceAll_spec (right : ctx.Right) (pending : Int) (ctlOk : Bool) :
    ∃ outcome, ctx.canceAll pending ctlOk = .ok outcome ∧ outcome.Sound ctx pending := by
  rw [canceAll]
  split
  · exact ⟨_, rfl, unchanged_sound right pending false⟩
  rename_i notEmpty
  have registered : ctx.events.any = true := by simpa using notEmpty
  have op_add : (CtlOp.del = CtlOp.add) ↔ ctx.events.any = false := by simp [registered]
  split
  · rename_i failed
    exact ⟨_, rfl, refused_sound right pending failed op_add false⟩
  · rename_i success
    obtain ⟨afterRead, outcome, first, kept, second, right', fd', events', pending', ctl'⟩ :=
      trigger_both right pending { op := .del, events := .none, ok := ctlOk } ctx.events
        fun _ => id
    have cleared : outcome.context.events = .none := by
      rw [events']
      rcases ctx.events with ⟨_ | _, _ | _⟩ <;> rfl
    refine ⟨outcome, ?_, accepted_sound right' fd' pending' ctl' (by simpa using success) op_add ?_⟩
    · simp only [first, kept, second, cleared, bind, Except.bind]
      rfl
    · rw [cleared]
      exact ⟨rfl, iff_of_true rfl rfl⟩

/-- What the idle loop's step needs so that it triggers registered events only: the `epoll_ctl`
fails, nothing of the report is registered, or everything reported is. -/
def Current (ctx : FdContext φ γ) (reported : Reported) (ctlOk : Bool) : Prop :=
  ctlOk = false ∨ (ctx.events.inter (ctx.realEvents reported)).any = false ∨
    ∀ event, reported.events.has event = true → ctx.events.has event = true

instance (ctx : FdContext φ γ) (reported : Reported) (ctlOk : Bool) :
    Decidable (ctx.Current reported ctlOk) :=
  decidable_of_iff
    (ctlOk = false ∨ (ctx.events.inter (ctx.realEvents reported)).any = false ∨
      (reported.events.read = true → ctx.events.read = true) ∧
        (reported.events.write = true → ctx.events.write = true))
    (or_congr_right (or_congr_right
      ⟨fun both event => by cases event; exacts [both.1, both.2], fun all => ⟨all .read, all .write⟩⟩))

theorem has_realEvents (reported : Reported) (event : Event) :
    (ctx.realEvents reported).has event =
      (reported.events.has event || (reported.failed && ctx.events.has event)) := by
  rw [realEvents]
  cases reported.failed <;> cases event <;> simp [Events.has, Events.union]

theorem deliver_spec (right : ctx.Right) (pending : Int) {reported : Reported} {ctlOk : Bool}
    (current : ctx.Current reported ctlOk) :
    ∃ outcome, ctx.deliver pending reported ctlOk = .ok outcome ∧ outcome.Sound ctx pending := by
  rw [deliver]
  dsimp only
  split
  · exact ⟨_, rfl, unchanged_sound right pending false⟩
  rename_i notDisjoint
  have registered : ctx.events.any = true := by
    revert notDisjoint
    rcases ctx.events with ⟨_ | _, _ | _⟩ <;> simp [Events.inter, Events.any]
  split
  · rename_i failed
    exact ⟨_, rfl, refused_sound right pending failed (leaveCtl_op_add registered _ _) false⟩
  · rename_i success
    have all := (current.resolve_left success).resolve_left notDisjoint
    obtain ⟨afterRead, outcome, first, kept, second, right', fd', events', pending', ctl'⟩ :=
      trigger_both right pending (leaveCtl (ctx.events.diff (ctx.realEvents reported)) ctlOk)
        (ctx.realEvents reported) (by
          intro event
          rw [has_realEvents, Bool.or_eq_true, Bool.and_eq_true]
          exact fun asked => asked.elim (all event) And.right)
    refine ⟨outcome, ?_, accepted_sound right' fd' pending' ctl' (by simpa [leaveCtl] using success)
      (leaveCtl_op_add registered _ _) ?_⟩
    · rw [first]
      exact second
    · rw [events']
      exact ⟨rfl, leaveCtl_op_del _ _⟩

/-- **A stale report aborts**: the idle loop asks for an event that is no longer registered. -/
theorem deliver_stale (right : ctx.Right) (pending : Int) {reported : Reported} {ctlOk : Bool}
    (stale : ¬ ctx.Current reported ctlOk) :
    ctx.deliver pending reported ctlOk = .error .notRegistered := by
  simp only [Current, not_or, not_forall] at stale
  obtain ⟨success, notDisjoint, event, asked, gone⟩ := stale
  have wanted : (ctx.realEvents reported).has event = true := by
    rw [has_realEvents, asked, Bool.true_or]
  have gone' : ctx.events.has event = false := by simpa using gone
  rw [deliver]
  simp only [if_neg notDisjoint, if_neg success]
  generalize leaveCtl (ctx.events.diff (ctx.realEvents reported)) ctlOk = ctl
  by_cases readRegistered : (ctx.realEvents reported).read = true → ctx.events.read = true
  · obtain ⟨afterRead, first, _, _, events', _, _⟩ :=
      triggerIf_spec (ctx.unchanged pending (some ctl) true) right
        (ctx.realEvents reported).read .read readRegistered
    cases event with
    | read =>
        have := readRegistered wanted
        simp_all [Events.has]
    | write =>
        have stillGone : afterRead.context.events.has .write = false := by
          rw [events', ← gone']
          split <;> rfl
        rw [first]
        simp only [bind, Except.bind, triggerIf, show (ctx.realEvents reported).write = true from
          wanted, if_true, triggerEvent_unregistered stillGone]
  · obtain ⟨readWanted, readGone⟩ := Classical.not_imp.mp readRegistered
    have readGone' : ctx.events.has .read = false := by simpa [Events.has] using readGone
    simp only [bind, Except.bind, triggerIf, readWanted, if_true, unchanged,
      triggerEvent_unregistered readGone']

end FdContext

namespace IOManager

variable {manager : IOManager φ γ} {label : Label φ γ}

/-- The assertions that a section can fail on a right context. -/
def Label.Fails (label : Label φ γ) (ctx : FdContext φ γ) (assertion : Assertion) : Prop :=
  match label with
  | .addEvent .. => assertion = .addedTwice ∨ assertion = .fiberNotExec
  | .deliver _ reported ctlOk => assertion = .notRegistered ∧ ¬ ctx.Current reported ctlOk
  | _ => False

/-- **Every section** keeps a right context right, or fails an assertion it may fail. -/
theorem section_spec {ctx : FdContext φ γ} (right : ctx.Right) (label : Label φ γ) (pending : Int) :
    (∃ outcome, label.section ctx pending = .ok outcome ∧ outcome.Sound ctx pending) ∨
      ∃ assertion, label.section ctx pending = .error assertion ∧ label.Fails ctx assertion := by
  cases label with
  | addEvent fd event cb self exec ctlOk =>
      rcases ctx.addEvent_spec right pending event cb self exec ctlOk with sound | twice | notExec
      · exact Or.inl sound
      · exact Or.inr ⟨_, twice, Or.inl rfl⟩
      · exact Or.inr ⟨_, notExec, Or.inr rfl⟩
  | delEvent fd event ctlOk => exact Or.inl (ctx.delEvent_spec right pending event ctlOk)
  | canceEvent fd event ctlOk => exact Or.inl (ctx.canceEvent_spec right pending event ctlOk)
  | canceAll fd ctlOk => exact Or.inl (ctx.canceAll_spec right pending ctlOk)
  | deliver fd reported ctlOk =>
      by_cases current : ctx.Current reported ctlOk
      · exact Or.inl (ctx.deliver_spec right pending current)
      · exact Or.inr ⟨_, ctx.deliver_stale right pending current, rfl, current⟩

/-! ### The table -/

/-- The context of an fd; one past the table would be a new one. -/
def context (manager : IOManager φ γ) (fd : Nat) : FdContext φ γ :=
  (manager.fdContexts[fd]?).getD (.new fd)

/-- The number of event bits set in a table. -/
def bits (table : List (FdContext φ γ)) : Int :=
  (table.map fun ctx => (ctx.events.count : Int)).sum

/-- What the kernel should have registered for a context. -/
def interest (events : Events) : Option Events := if events.any then some events else none

/-- **The four copies agree.** -/
structure WellFormed (manager : IOManager φ γ) : Prop where
  room : 32 ≤ manager.fdContexts.length
  right : ∀ (fd : Nat) (ctx : FdContext φ γ), manager.fdContexts[fd]? = some ctx →
    ctx.fd = fd ∧ ctx.Right
  pending_eq : manager.pendingEvent = bits manager.fdContexts
  registered_eq : ∀ fd, manager.registered fd = interest (manager.context fd).events

theorem contextResize_of_le {α : Type*} (create : Nat → α) {table : List α} {size : Nat}
    (grows : table.length ≤ size) :
    contextResize create table size =
      table ++ (List.range' table.length (size - table.length)).map create := by
  rw [contextResize, List.take_of_length_le grows]

theorem contextResize_getElem? (table : List (FdContext φ γ)) {size : Nat}
    (grows : table.length ≤ size) (fd : Nat) :
    (contextResize FdContext.new table size)[fd]? =
      if fd < table.length then table[fd]? else if fd < size then some (.new fd) else none := by
  rw [contextResize_of_le _ grows, List.getElem?_append]
  split
  · rfl
  · rw [List.getElem?_map]
    split
    · rw [List.getElem?_range' (by omega)]
      simp only [Option.map_some, Option.some.injEq]
      congr 1
      omega
    · rw [List.getElem?_eq_none (by rw [List.length_range']; omega), Option.map_none]

theorem bits_contextResize (table : List (FdContext φ γ)) {size : Nat}
    (grows : table.length ≤ size) :
    bits (contextResize FdContext.new table size) = bits table := by
  rw [contextResize_of_le _ grows, bits, List.map_append, List.sum_append, List.map_map]
  refine add_eq_left.mpr (List.sum_eq_zero fun count member => ?_)
  obtain ⟨fd, _, rfl⟩ := List.mem_map.mp member
  rfl

theorem bits_set {table : List (FdContext φ γ)} {fd : Nat} {old : FdContext φ γ}
    (found : table[fd]? = some old) (ctx : FdContext φ γ) :
    bits (table.set fd ctx) = bits table + ctx.events.count - old.events.count := by
  obtain ⟨within, same⟩ := List.getElem?_eq_some_iff.mp found
  rw [bits, List.map_set, List.sum_set', dif_pos (by rwa [List.length_map]), List.getElem_map, same,
    bits]
  omega

theorem grow_wellFormed (well : manager.WellFormed) {size : Nat}
    (grows : manager.fdContexts.length ≤ size) :
    ({ manager with fdContexts := contextResize FdContext.new manager.fdContexts size } :
      IOManager φ γ).WellFormed ∧
      ∀ fd, ({ manager with fdContexts := contextResize FdContext.new manager.fdContexts size } :
        IOManager φ γ).context fd = manager.context fd := by
  have entries := contextResize_getElem? manager.fdContexts grows
  have sameContext : ∀ fd,
      ({ manager with fdContexts := contextResize FdContext.new manager.fdContexts size } :
        IOManager φ γ).context fd = manager.context fd := by
    intro fd
    simp only [context, entries]
    split
    · rfl
    · rename_i past
      rw [List.getElem?_eq_none (by omega)]
      split <;> rfl
  refine
    ⟨{ room := ?_
       right := fun fd ctx found => ?_
       pending_eq := ?_
       registered_eq := fun fd => ?_ }, sameContext⟩
  · have := well.room
    simp only [contextResize_of_le _ grows, List.length_append]
    omega
  · simp only [entries] at found
    split at found
    · exact well.right fd ctx found
    · split at found
      · cases found
        exact ⟨rfl, FdContext.new_right fd⟩
      · cases found
  · simp only [bits_contextResize _ grows]
    exact well.pending_eq
  · rw [sameContext]
    exact well.registered_eq fd

/-- Making room for an fd changes no copy. -/
theorem table_wellFormed (well : manager.WellFormed) (label : Label φ γ) :
    ({ manager with fdContexts := label.table manager.fdContexts } :
      IOManager φ γ).WellFormed ∧
      ∀ fd, ({ manager with fdContexts := label.table manager.fdContexts } :
        IOManager φ γ).context fd = manager.context fd := by
  cases label with
  | addEvent fd event cb self exec ctlOk =>
      simp only [Label.table]
      split
      · exact ⟨well, fun _ => rfl⟩
      · exact grow_wellFormed well (by omega)
  | _ => exact ⟨well, fun _ => rfl⟩

/-- `addEvent` finds a context for its fd. -/
theorem addEvent_found (well : manager.WellFormed) (fd : Nat) (event : Event) (cb : Option γ)
    (self : φ) (exec ctlOk : Bool) :
    ((Label.addEvent fd event cb self exec ctlOk).table manager.fdContexts)[fd]? ≠ none := by
  have room := well.room
  simp only [Label.table]
  split
  · rename_i within
    rw [List.getElem?_eq_getElem within]
    exact nofun
  · rw [contextResize_getElem? _ (by omega), if_neg (by omega), if_pos (by omega)]
    exact nofun

/-! ### One step -/

theorem control_success (registered : Nat → Option Events) (fd : Nat) {ctl : Ctl}
    (success : ctl.ok = true) :
    control registered fd (some ctl) =
      Function.update registered fd (if ctl.op = .del then none else some ctl.events) := by
  obtain ⟨op, events, ok⟩ := ctl
  cases success
  cases op <;> rfl

theorem control_failed (registered : Nat → Option Events) (fd : Nat) {ctl : Ctl}
    (failed : ctl.ok = false) : control registered fd (some ctl) = registered := by
  obtain ⟨op, events, ok⟩ := ctl
  cases failed
  cases op <;> rfl

theorem context_eq {fd : Nat} {ctx : FdContext φ γ} (found : manager.fdContexts[fd]? = some ctx) :
    manager.context fd = ctx := by
  rw [context, found, Option.getD_some]

/-- **A sound section keeps the copies in agreement.** -/
theorem commit_wellFormed (well : manager.WellFormed) {fd : Nat} {ctx : FdContext φ γ}
    (found : manager.fdContexts[fd]? = some ctx) {outcome : Outcome φ γ}
    (sound : outcome.Sound ctx manager.pendingEvent) :
    ({ manager with
        fdContexts := manager.fdContexts.set fd outcome.context
        pendingEvent := outcome.pending
        registered := control manager.registered fd outcome.ctl } : IOManager φ γ).WellFormed := by
  obtain ⟨within, _⟩ := List.getElem?_eq_some_iff.mp found
  have sameFd := (well.right fd ctx found).1
  have before := well.registered_eq fd
  rw [context_eq found] at before
  refine
    { room := ?_
      right := fun other ctx' found' => ?_
      pending_eq := ?_
      registered_eq := fun other => ?_ }
  · rw [List.length_set]
    exact well.room
  · by_cases isSelf : fd = other
    · subst isSelf
      rw [List.getElem?_set_self within] at found'
      cases found'
      exact ⟨sound.same_fd.trans sameFd, sound.right⟩
    · rw [List.getElem?_set_ne isSelf] at found'
      exact well.right other ctx' found'
  · rw [bits_set found, sound.pending_eq, well.pending_eq]
  · by_cases isSelf : fd = other
    · subst isSelf
      rw [context_eq (List.getElem?_set_self within)]
      cases issued : outcome.ctl with
      | none =>
          rw [sound.silent issued]
          exact before
      | some ctl =>
          cases result : ctl.ok with
          | false =>
              rw [sound.refused ctl issued result, control_failed _ _ result]
              exact before
          | true =>
              obtain ⟨sameEvents, op_del⟩ := sound.kernel ctl issued result
              rw [control_success _ _ result]
              simp only [Function.update_self, interest, sameEvents]
              cases remaining : outcome.context.events.any with
              | false => rw [if_pos (op_del.mpr remaining), if_neg Bool.false_ne_true]
              | true =>
                  rw [if_neg (fun isDel => by rw [op_del.mp isDel] at remaining; cases remaining),
                    if_pos rfl]
    · have sameRegistered : control manager.registered fd outcome.ctl other =
          manager.registered other := by
        cases outcome.ctl with
        | none => rfl
        | some ctl =>
            cases result : ctl.ok with
            | false => rw [control_failed _ _ result]
            | true => rw [control_success _ _ result, Function.update_of_ne (Ne.symm isSelf)]
      simp only [sameRegistered, context, List.getElem?_set_ne isSelf]
      exact well.registered_eq other

/-- **One step** keeps the four copies in agreement; an assertion it fails is one that the section may
fail; its `epoll_ctl` adds exactly what is not registered, and when that call fails, no copy changes. -/
theorem step_spec (well : manager.WellFormed) {next : IOManager φ γ} {shown : Shown φ γ}
    (stepped : manager.step label = some (next, shown)) :
    next.WellFormed ∧
      (∀ assertion, shown = .aborted assertion →
        label.Fails (manager.context label.fd) assertion ∧
          next = { manager with aborted := some assertion }) ∧
      ∀ ctl scheduled ok, shown = .done ctl scheduled ok → next.aborted = none ∧
        ∀ issued, ctl = some issued →
          (issued.op = .add ↔ manager.registered label.fd = none) ∧
          (issued.ok = false → next.pendingEvent = manager.pendingEvent ∧
            next.registered = manager.registered ∧
            ∀ fd, next.context fd = manager.context fd) := by
  rw [step] at stepped
  split at stepped
  · cases stepped
  rename_i running
  have running' : manager.aborted = none := Option.not_isSome_iff_eq_none.mp running
  obtain ⟨grown, sameContext⟩ := table_wellFormed well label
  cases found : (label.table manager.fdContexts)[label.fd]? with
  | none =>
      have ignored : some (manager, .done none [] false) = some (next, shown) := by
        cases label with
        | addEvent fd event cb self exec ctlOk =>
            exact absurd found (addEvent_found well fd event cb self exec ctlOk)
        | _ => simpa only [found] using stepped
      cases ignored
      refine ⟨well, nofun, ?_⟩
      rintro _ _ _ ⟨⟩
      exact ⟨running', nofun⟩
  | some ctx =>
      have here : manager.context label.fd = ctx := by
        rw [← sameContext]
        exact context_eq found
      have right := (grown.right label.fd ctx found).2
      simp only [found] at stepped
      rcases section_spec right label manager.pendingEvent with
        ⟨outcome, returned, sound⟩ | ⟨assertion, returned, fails⟩
      · rw [returned] at stepped
        cases stepped
        refine ⟨commit_wellFormed grown found sound, nofun, ?_⟩
        rintro _ _ _ ⟨⟩
        refine ⟨running', fun issued isIssued => ⟨?_, fun failed => ⟨?_, ?_, fun fd => ?_⟩⟩⟩
        · rw [sound.op_add issued isIssued, well.registered_eq, here, interest]
          cases ctx.events.any <;> simp
        · have counted := sound.pending_eq
          rw [sound.refused issued isIssued failed] at counted
          simp only
          omega
        · rw [isIssued]
          exact control_failed _ _ failed
        · obtain ⟨within, same⟩ := List.getElem?_eq_some_iff.mp found
          rw [← sameContext fd, context, context]
          simp only [sound.refused issued isIssued failed, ← same, List.set_getElem_self]
      · rw [returned] at stepped
        cases stepped
        refine ⟨⟨well.room, well.right, well.pending_eq, well.registered_eq⟩, ?_, nofun⟩
        rintro _ ⟨⟩
        rw [here]
        exact ⟨fails, rfl⟩

end IOManager

end Wyze
