/-
**The timeout that a hooked call waits with.**

The hooked `setsockopt` converts a `timeval` to milliseconds in `long` arithmetic and keeps them in
the fd's `FdCtx`; `do_io` arms a timer unless they are zero. A new context holds -1, which is not
zero: a socket whose timeout was never set arms a timer, and its deadline wraps to the millisecond
before (`never_set_times_out`).

* `setsockopts_getTimeout` — what a history of calls leaves in a context.
* `untimed_inv` — without a timer no wait ends with `ETIMEDOUT`.
* `timeout_honoured_iff` — the histories after which a wait has the timeout that was set.
-/
import Mathlib.Data.List.Induction
import Wyze.Hook.DoIo
import Wyze.Hook.FdManager
import Wyze.Timer.Announce

namespace Wyze

open Labelled

/-- `timeval`. -/
structure Timeval where
  sec : Int
  usec : Int
deriving DecidableEq

/-- The two options with a timeout. -/
inductive TimeoutSo where
  | rcvTimeo
  | sndTimeo
deriving DecidableEq

namespace Timeval

/-- The value is one of `long`. -/
def FitsLong (value : Int) : Prop := -2 ^ 63 ≤ value ∧ value < 2 ^ 63

instance (value : Int) : Decidable (FitsLong value) := inferInstanceAs (Decidable (_ ∧ _))

/-- `tv_sec * 1000 + tv_usec / 1000`; `none` when an operation overflows. -/
def toMs (v : Timeval) : Option Int :=
  if FitsLong (v.sec * 1000) ∧ FitsLong (v.sec * 1000 + v.usec.tdiv 1000) then
    some (v.sec * 1000 + v.usec.tdiv 1000)
  else none

/-- The time that the value stands for, in microseconds. -/
def micros (v : Timeval) : Int := v.sec * 1000000 + v.usec

end Timeval

namespace FdCtx

def setTimeout (ctx : FdCtx) (type : TimeoutSo) (v : UInt64) : FdCtx :=
  match type with
  | .rcvTimeo => { ctx with recvTimeout := v }
  | .sndTimeo => { ctx with sendTimeout := v }

def getTimeout (ctx : FdCtx) : TimeoutSo → UInt64
  | .rcvTimeo => ctx.recvTimeout
  | .sndTimeo => ctx.sendTimeout

/-- The hooked `setsockopt` for a timeout, on the fd's context. -/
def setsockopt (ctx : FdCtx) (type : TimeoutSo) (v : Timeval) : Option FdCtx :=
  v.toMs.map fun ms => ctx.setTimeout type (.ofInt ms)

/-- One call after the other. -/
def setsockopts (ctx : FdCtx) (history : List (TimeoutSo × Timeval)) : Option FdCtx :=
  history.foldlM (fun ctx entry => ctx.setsockopt entry.1 entry.2) ctx

/-- The timer that `do_io` arms before it suspends its fiber. -/
def conditionTimer (ctx : FdCtx) (timeoutSo : TimeoutSo) (now : Nat) : Option (Timer Unit) :=
  let ms := (ctx.getTimeout timeoutSo).toNat
  if ms ≠ 0 then some (.new ms () false now) else none

end FdCtx

/-- The last value set for an option. -/
def lastSet (history : List (TimeoutSo × Timeval)) (type : TimeoutSo) : Option Timeval :=
  (history.reverse.find? fun entry => entry.1 = type).map Prod.snd

namespace DoIo

/-- One step of `do_io` with its `ms`: without a timeout `addConditionTimer` is left out. -/
def stepFor (ms : Nat) (state : DoIo) (label : Label) : Option (DoIo × Unit) :=
  if label = .arm ∧ ms = 0 then
    if state.phase = .arming then
      some ({ state with phase := .adding, current := { timer := .finished, cancelled := false } }, ())
    else none
  else state.step label

/-- `cancelled` was set: `errno` is `ETIMEDOUT`, and the call returns -1. -/
def TimedOut (state : DoIo) : Prop := state.phase = .deleting

instance (state : DoIo) : Decidable state.TimedOut := inferInstanceAs (Decidable (_ = _))

end DoIo

/-! ### What a history leaves in a context -/

section Histories

variable {ctx : FdCtx} {history : List (TimeoutSo × Timeval)} {type : TimeoutSo}

theorem getTimeout_setTimeout (ctx : FdCtx) (type other : TimeoutSo) (v : UInt64) :
    (ctx.setTimeout type v).getTimeout other = if type = other then v else ctx.getTimeout other := by
  cases type <;> cases other <;> rfl

theorem lastSet_append (history : List (TimeoutSo × Timeval)) (entry : TimeoutSo × Timeval) :
    lastSet (history ++ [entry]) type =
      if entry.1 = type then some entry.2 else lastSet history type := by
  rw [lastSet, List.reverse_append, List.reverse_singleton, List.singleton_append, List.find?_cons]
  by_cases same : entry.1 = type
  · rw [decide_eq_true same, if_pos same]
    rfl
  · rw [decide_eq_false same, if_neg same]
    rfl

theorem lastSet_mem {v : Timeval} (last : lastSet history type = some v) : (type, v) ∈ history := by
  obtain ⟨⟨type', _⟩, found, rfl⟩ := Option.map_eq_some_iff.mp last
  have same := List.find?_some found
  obtain rfl : type' = type := of_decide_eq_true same
  exact List.mem_reverse.mp (List.mem_of_find?_eq_some found)

/-- **What a history leaves** for an option: the last value set for it, or what was there. -/
theorem setsockopts_getTimeout : ∀ (history : List (TimeoutSo × Timeval)) {after : FdCtx},
    ctx.setsockopts history = some after →
    after.getTimeout type =
      ((lastSet history type).bind Timeval.toMs).elim (ctx.getTimeout type) .ofInt := by
  intro history
  induction history using List.reverseRecOn with
  | nil =>
      rintro after ⟨⟩
      rfl
  | append_singleton history entry ih =>
      intro after executed
      rw [FdCtx.setsockopts, List.foldlM_append] at executed
      obtain ⟨before, first, last⟩ := Option.bind_eq_some_iff.mp executed
      rw [List.foldlM_cons] at last
      obtain ⟨_, set, ⟨⟩⟩ := Option.bind_eq_some_iff.mp last
      obtain ⟨ms, converted, rfl⟩ := Option.map_eq_some_iff.mp set
      rw [getTimeout_setTimeout, lastSet_append]
      split
      · rw [Option.bind_some, converted]
        rfl
      · exact ih first

/-- A history is defined when each of its conversions is. -/
theorem setsockopts_isSome : ∀ (history : List (TimeoutSo × Timeval)) {ctx : FdCtx},
    (ctx.setsockopts history).isSome ↔ ∀ entry ∈ history, entry.2.toMs.isSome
  | [], _ => iff_of_true rfl (fun _ absent => nomatch absent)
  | entry :: history, ctx => by
    rw [FdCtx.setsockopts, List.foldlM_cons, List.forall_mem_cons, FdCtx.setsockopt]
    cases converted : entry.2.toMs with
    | none => exact iff_of_false Bool.false_ne_true fun all => Bool.false_ne_true all.1
    | some ms => exact (setsockopts_isSome history).trans (and_iff_right rfl).symm

end Histories

/-! ### One wait -/

namespace Timeval

/-- **The timeout is a whole number of milliseconds** that the deadline has room for; or it is not
positive, and converts to zero. -/
def Exact (v : Timeval) (now : Nat) : Prop :=
  0 < v.micros ∧ v.usec % 1000 = 0 ∧ now + v.micros / 1000 < 2 ^ 64 ∨ v.micros ≤ 0 ∧ v.toMs = some 0

instance (v : Timeval) (now : Nat) : Decidable (v.Exact now) := inferInstanceAs (Decidable (_ ∨ _))

theorem toMs_eq_some {v : Timeval} {ms : Int} (converted : v.toMs = some ms) :
    ms = v.sec * 1000 + v.usec.tdiv 1000 ∧ FitsLong ms := by
  rw [toMs] at converted
  split at converted
  · rename_i fits
    cases converted
    exact ⟨rfl, fits.2⟩
  · cases converted

/-- What is left of a value in microseconds when its fraction is cut off. -/
theorem micros_eq {v : Timeval} {ms : Int} (converted : v.toMs = some ms) :
    v.micros = ms * 1000 + v.usec.tmod 1000 := by
  have split := Int.mul_tdiv_add_tmod v.usec 1000
  rw [(toMs_eq_some converted).1, micros]
  omega

end Timeval

/-- **The wait has the timeout that was set**: a timer exactly when it is positive, and then its
deadline, in microseconds, is the reading of the clock and the timeout. -/
def KeepsTimeout (armed : Option (Timer Unit)) (v : Timeval) (now : Nat) : Prop :=
  (armed.isSome ↔ 0 < v.micros) ∧
    ∀ timer ∈ armed, (timer.next : Int) * 1000 = now * 1000 + v.micros

theorem toNat_ofInt {ms : Int} (fits : Timeval.FitsLong ms) :
    ((UInt64.ofInt ms).toNat : Int) = if 0 ≤ ms then ms else ms + 2 ^ 64 := by
  obtain ⟨low, high⟩ := fits
  rw [UInt64.ofInt, UInt64.toNat_ofNat']
  split <;> omega

/-- **One wait**: the context's milliseconds give the timeout that was set exactly when nothing of it
is cut off and nothing wraps. -/
theorem keepsTimeout_iff {ctx : FdCtx} {type : TimeoutSo} {v : Timeval} {ms : Int}
    (converted : v.toMs = some ms) (held : ctx.getTimeout type = .ofInt ms) (now : Nat) :
    KeepsTimeout (ctx.conditionTimer type now) v now ↔ v.Exact now := by
  have whole := Timeval.micros_eq converted
  have fraction := Int.tmod_lt_of_pos v.usec (by decide : (0 : Int) < 1000)
  have fraction' := Int.lt_tmod_of_pos v.usec (by decide : (0 : Int) < 1000)
  have kept := toNat_ofInt (Timeval.toMs_eq_some converted).2
  have fits := (Timeval.toMs_eq_some converted).2
  have divides : v.usec % 1000 = 0 ↔ v.usec.tmod 1000 = 0 := by
    rw [← Int.dvd_iff_emod_eq_zero, ← Int.dvd_iff_tmod_eq_zero]
  rw [FdCtx.conditionTimer, held, Timeval.Exact, converted, divides]
  generalize (UInt64.ofInt ms).toNat = value at kept ⊢
  generalize v.usec.tmod 1000 = rest at whole fraction fraction' ⊢
  obtain ⟨low, high⟩ := fits
  rcases lt_trichotomy ms 0 with negative | rfl | positive
  · -- A negative value is a huge unsigned one.
    rw [if_neg (by omega)] at kept
    rw [if_pos (by omega)]
    refine iff_of_false (fun keeps => ?_) ?_
    · have isPositive := keeps.1.mp rfl
      omega
    · rintro (⟨isPositive, _⟩ | ⟨_, zero⟩)
      · omega
      · exact negative.ne (Option.some.inj zero)
  · rw [if_pos le_rfl] at kept
    rw [if_neg (by omega)]
    constructor
    · intro keeps
      refine Or.inr ⟨not_lt.mp fun isPositive => ?_, rfl⟩
      exact Bool.false_ne_true (keeps.1.mpr isPositive)
    · intro exact
      refine ⟨iff_of_false Bool.false_ne_true ?_, fun _ absent => nomatch absent⟩
      rcases exact with ⟨isPositive, rfl, _⟩ | ⟨notPositive, _⟩
      · omega
      · exact not_lt.mpr notPositive
  · rw [if_pos positive.le] at kept
    rw [if_pos (by omega)]
    have isPositive : 0 < v.micros := by omega
    have sum := add64_eq_iff now value
    constructor
    · intro keeps
      have deadline : ((add64 now value : Nat) : Int) * 1000 = now * 1000 + v.micros :=
        keeps.2 (.new value () false now) (Option.mem_some_iff.mpr rfl)
      have whole' : rest = 0 := by omega
      have same : add64 now value = now + value := by omega
      have room := sum.mp same
      exact Or.inl ⟨isPositive, whole', by omega⟩
    · intro exact
      obtain ⟨_, rfl, room⟩ := exact.resolve_right fun zero => positive.ne' (Option.some.inj zero.2)
      refine ⟨iff_of_true rfl isPositive, ?_⟩
      intro timer isTimer
      obtain rfl := Option.mem_some_iff.mp isTimer
      have same := sum.mpr (by omega)
      change ((add64 now value : Nat) : Int) * 1000 = now * 1000 + v.micros
      omega

/-! ### Waits without a timer -/

namespace DoIo

/-- **The invariant of a call without a timer**: nothing sets the flag of its round. -/
structure Untimed (state : DoIo) : Prop where
  timer : state.current.timer = .finished
  unmarked : state.current.cancelled = false
  inTime : ¬ state.TimedOut

variable {state : DoIo}

theorem Untimed.move (untimed : Untimed state) {next : DoIo} (same : next.current = state.current)
    (inTime : ¬ next.TimedOut) : Untimed next :=
  ⟨same ▸ untimed.timer, same ▸ untimed.unmarked, inTime⟩

theorem Untimed.run (untimed : Untimed state) (result : Except Assertion (Outcome Unit Unit)) :
    Untimed (state.run result) := by
  cases result with
  | error _ => exact untimed.move rfl (show Phase.aborted ≠ .deleting by decide)
  | ok outcome => exact untimed.move rfl untimed.inTime

theorem untimed_fiberStep {next : DoIo} {label : Label} (untimed : Untimed state)
    (notArm : label ≠ .arm) (stepped : state.fiberStep label = some next) : Untimed next := by
  cases label with
  | call done =>
      rw [fiberStep] at stepped
      split at stepped <;> cases stepped
      refine untimed.move rfl (show (if done then Phase.returned else .arming) ≠ .deleting from ?_)
      cases done <;> decide
  | arm => exact absurd rfl notArm
  | add ctlOk =>
      rw [fiberStep] at stepped
      split at stepped <;> cases stepped
      have left : Untimed { state with phase := if ctlOk then .yielding else .returned } := by
        refine untimed.move rfl (show (if ctlOk then Phase.yielding else .returned) ≠ .deleting from ?_)
        cases ctlOk <;> decide
      exact left.run _
  | yield =>
      rw [fiberStep] at stepped
      split at stepped <;> cases stepped
      exact untimed.move rfl (show Phase.suspended ≠ .deleting by decide)
  | resume =>
      rw [fiberStep] at stepped
      split at stepped <;> cases stepped
      exact untimed.move rfl (show Phase.resumed ≠ .deleting by decide)
  | cancelTimer =>
      rw [fiberStep] at stepped
      split at stepped <;> cases stepped
      refine ⟨?_, untimed.unmarked, show Phase.checking ≠ .deleting by decide⟩
      rw [if_neg (by rw [untimed.timer]; decide)]
      exact untimed.timer
  | check =>
      rw [fiberStep, untimed.unmarked] at stepped
      split at stepped <;> cases stepped
      exact ⟨rfl, rfl, show Phase.trying ≠ .deleting by decide⟩
  | delete ctlOk =>
      rw [fiberStep] at stepped
      split at stepped <;> cases stepped
      have left : Untimed { state with phase := .returned } :=
        untimed.move rfl (show Phase.returned ≠ .deleting by decide)
      exact left.run _
  | _ => cases stepped

/-- **One step without a timer**: what is left to act are the timers of earlier rounds. -/
theorem stepFor_untimed {label : Label} {next : DoIo × Unit} (untimed : Untimed state)
    (stepped : state.stepFor 0 label = some next) : Untimed next.1 := by
  rw [stepFor] at stepped
  by_cases isArm : label = .arm
  · rw [if_pos ⟨isArm, rfl⟩] at stepped
    split at stepped <;> cases stepped
    exact ⟨rfl, rfl, show Phase.adding ≠ .deleting by decide⟩
  rw [if_neg fun arms => isArm arms.1] at stepped
  cases isTimer : label.which with
  | none =>
      unfold step at stepped
      split at stepped
      · cases stepped
      cases label with
      | ready failed ctlOk =>
          cases stepped
          exact untimed.run _
      | expire | lock | mark | cance => cases isTimer
      | _ =>
          obtain ⟨reached, moved, rfl⟩ := Option.map_eq_some_iff.mp stepped
          exact untimed_fiberStep untimed isArm moved
  | some which =>
      obtain ⟨round, round', found, changed, reached⟩ := step_timer isTimer stepped
      rw [reached]
      cases which with
      | current =>
          cases found
          rw [timerStep.eq_def, untimed.timer] at changed
          cases label <;> cases changed
      | earlier index =>
          have kept : Untimed (state.setRound round' (.earlier index)) :=
            untimed.move rfl untimed.inTime
          cases label with
          | cance which ctlOk => exact kept.run _
          | _ => exact kept

/-- **Without a timer no wait ends with `ETIMEDOUT`.** -/
theorem untimed_inv (fd : Nat) (event : Event) (earlier : List Round) {labels : List Label}
    {final : DoIo} {outputs : List Unit}
    (executed : trace (stepFor 0) (new fd event earlier) labels = some (final, outputs)) :
    ¬ final.TimedOut :=
  (trace_invariant' (fun _ _ _ untimed stepped => stepFor_untimed untimed stepped)
    (⟨rfl, rfl, show Phase.trying ≠ .deleting by decide⟩ : Untimed (new fd event earlier))
    executed).inTime

end DoIo

/-! ### Every socket, every history -/

/-- **A wait after a history of calls has the timeout that was set.** A timer is armed exactly when
the last value set for the direction is positive, its deadline in microseconds is the sum, and when
no positive value was set, as when none was, the call never fails with `ETIMEDOUT`. -/
structure Honoured (fd : Nat) (history : List (TimeoutSo × Timeval)) (type : TimeoutSo) (now : Nat) :
    Prop where
  defined : ((FdCtx.new fd (some true)).setsockopts history).isSome
  arms : ∀ ctx ∈ (FdCtx.new fd (some true)).setsockopts history,
    ((ctx.conditionTimer type now).isSome ↔ ∃ v ∈ lastSet history type, 0 < v.micros)
  deadline : ∀ ctx ∈ (FdCtx.new fd (some true)).setsockopts history,
    ∀ v ∈ lastSet history type, ∀ timer ∈ ctx.conditionTimer type now,
      (timer.next : Int) * 1000 = now * 1000 + v.micros
  untimed : ∀ ctx ∈ (FdCtx.new fd (some true)).setsockopts history,
    (∀ v ∈ lastSet history type, ¬ 0 < v.micros) →
    ∀ event earlier labels final outputs,
      trace (DoIo.stepFor (ctx.getTimeout type).toNat) (.new fd event earlier) labels =
        some (final, outputs) → ¬ final.TimedOut

/-- What a context holds after the history, by the last value set. -/
theorem getTimeout_of_lastSet {fd : Nat} {history : List (TimeoutSo × Timeval)} {ctx : FdCtx}
    {type : TimeoutSo} {v : Timeval} {ms : Int}
    (executed : ctx ∈ (FdCtx.new fd (some true)).setsockopts history)
    (last : lastSet history type = some v) (converted : v.toMs = some ms) :
    ctx.getTimeout type = .ofInt ms := by
  rw [setsockopts_getTimeout history executed, last, Option.bind_some, converted]
  rfl

/-- The -1 of a context on which no timeout was set is not zero: a timer is armed. -/
theorem armed_of_never_set {fd : Nat} {history : List (TimeoutSo × Timeval)} {ctx : FdCtx}
    {type : TimeoutSo} (executed : ctx ∈ (FdCtx.new fd (some true)).setsockopts history)
    (never : lastSet history type = none) (now : Nat) :
    (ctx.conditionTimer type now).isSome := by
  have held : ctx.getTimeout type = _ := setsockopts_getTimeout history executed
  rw [never] at held
  rw [FdCtx.conditionTimer, held]
  cases type <;> rfl

/-- What honouring the timeouts takes. -/
theorem exact_of_honoured {fd : Nat} {history : List (TimeoutSo × Timeval)} {type : TimeoutSo}
    {now : Nat} (honoured : Honoured fd history type now) :
    ∃ v, lastSet history type = some v ∧ v.Exact now := by
  obtain ⟨ctx, executed⟩ := Option.isSome_iff_exists.mp honoured.defined
  have defined := (setsockopts_isSome history).mp honoured.defined
  have arms := honoured.arms ctx executed
  cases last : lastSet history type with
  | none =>
      obtain ⟨v, absent, _⟩ := arms.mp (armed_of_never_set executed last now)
      rw [last] at absent
      cases absent
  | some v =>
      obtain ⟨ms, converted⟩ := Option.isSome_iff_exists.mp (defined _ (lastSet_mem last))
      have held := getTimeout_of_lastSet executed last converted
      refine ⟨v, rfl, (keepsTimeout_iff converted held now).mp ⟨?_, ?_⟩⟩
      · rw [arms, last]
        exact ⟨fun ⟨_, same, positive⟩ => Option.some.inj same ▸ positive,
          fun positive => ⟨v, rfl, positive⟩⟩
      · exact honoured.deadline ctx executed v last

/-- That it is enough. -/
theorem honoured_of_exact (fd : Nat) {history : List (TimeoutSo × Timeval)} {type : TimeoutSo}
    {now : Nat} (defined : ∀ entry ∈ history, entry.2.toMs.isSome) {v : Timeval}
    (last : lastSet history type = some v) (exact : v.Exact now) :
    Honoured fd history type now := by
  obtain ⟨ms, converted⟩ := Option.isSome_iff_exists.mp (defined _ (lastSet_mem last))
  have keeps : ∀ ctx ∈ (FdCtx.new fd (some true)).setsockopts history,
      ctx.getTimeout type = .ofInt ms ∧ KeepsTimeout (ctx.conditionTimer type now) v now := by
    intro ctx executed
    have held := getTimeout_of_lastSet executed last converted
    exact ⟨held, (keepsTimeout_iff converted held now).mpr exact⟩
  refine
    { defined := (setsockopts_isSome history).mpr defined
      arms := fun ctx executed => ?_
      deadline := fun ctx executed v' last' => ?_
      untimed := fun ctx executed unset event earlier labels final outputs ran => ?_ }
  · rw [(keeps ctx executed).2.1, last]
    exact ⟨fun positive => ⟨v, rfl, positive⟩,
      fun ⟨_, same, positive⟩ => Option.some.inj same ▸ positive⟩
  · obtain rfl : v = v' := Option.some.inj (last.symm.trans last')
    exact (keeps ctx executed).2.2
  · have notPositive := unset v last
    have zero : v.toMs = some 0 := (exact.resolve_left fun whole => notPositive whole.1).2
    rw [zero] at converted
    cases converted
    rw [(keeps ctx executed).1] at ran
    exact DoIo.untimed_inv fd event earlier ran

/-- **Timeouts are honoured exactly when one was set and nothing of it is lost.** For every socket,
every sequence of hooked `setsockopt` calls and every reading of the clock: the conversions do not
overflow, the direction's timeout was set, and its last value is a whole number of milliseconds for
which the deadline has room, or not positive and zero in milliseconds. -/
theorem timeout_honoured_iff (fd : Nat) (history : List (TimeoutSo × Timeval)) (type : TimeoutSo)
    (now : Nat) :
    Honoured fd history type now ↔
      (∀ entry ∈ history, entry.2.toMs.isSome) ∧ ∃ v, lastSet history type = some v ∧ v.Exact now := by
  constructor
  · intro honoured
    exact ⟨(setsockopts_isSome history).mp honoured.defined, exact_of_honoured honoured⟩
  · rintro ⟨defined, v, last, exact⟩
    exact honoured_of_exact fd defined last exact

/-- **A timeout that was never set.** The context's -1 arms a timer due a millisecond ago, the next
expiry pass hands its callback out, and the call fails with `ETIMEDOUT`. -/
theorem never_set_times_out :
    ¬ Honoured 3 [] .rcvTimeo 1000 ∧
      ((FdCtx.new 3 (some true)).conditionTimer .rcvTimeo 1000).map Timer.next = some 999 ∧
      (∃ manager replies, trace TimerManager.call (.new 1000)
          [.addTimer ((FdCtx.new 3 (some true)).getTimeout .rcvTimeo).toNat () false 1000 7] =
            some (manager, replies) ∧
        (manager.listExpiredCb 1000 0).2 = [(7, some ())]) ∧
      ∃ final outputs, trace (DoIo.stepFor ((FdCtx.new 3 (some true)).getTimeout .rcvTimeo).toNat)
          (.new 3 .read []) [.call false, .arm, .add true, .yield, .expire .current, .lock .current,
            .mark .current, .cance .current true, .resume, .cancelTimer, .check] =
            some (final, outputs) ∧
        final.TimedOut := by
  refine ⟨fun honoured => ?_, by decide, ⟨_, _, rfl, by decide⟩, _, _, rfl, rfl⟩
  obtain ⟨_, absent, _⟩ := (honoured.arms _ rfl).mp (by decide)
  cases absent

end Wyze
