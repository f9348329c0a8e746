/-
**The contexts of the fibers of one thread.**

A switch saves the running flow of control in the context of one fiber and goes on with what another
context holds: `call` and `back` go through the thread's main fiber, `swapIn` and `swapOut` through the
main fiber of its scheduler. Nothing checks that the fiber whose context is written is the one that
runs. `GetThis` is a variable that every switch sets, and `MainFunc` asks it once whose body to run.

* `own_switch`, `placed_switch`: when a switch keeps every flow with its fiber, and that everything then
  stays in its place.
* `keeps_step`: which calls make such switches.
* `switches_iff`: **every switch of a run saves a fiber's flow in its own context, resumes the flow of
  the fiber it goes to and starts it on its own body, exactly when every call is `Paired`**.
-/
import Mathlib.Logic.Function.Basic
import Wyze.Lib.Run

namespace Wyze.Fiber

/-- `Fiber::State`. -/
inductive State where
  | init | hold | ready | exec | term | except
  deriving DecidableEq, Repr

/-- The body has ended, by return or by an exception. -/
def State.ended (state : State) : Bool := state = .term || state = .except

/-- A `Fiber`: `m_state`, whether it has a stack, and `m_useCaller`. -/
structure Object where
  state : State
  hasStack : Bool
  useCaller : Bool
  deriving DecidableEq, Repr

/-- Where a saved flow goes on: at the entry of `MainFunc`, inside it, or at the assertion at its end. -/
inductive Point where
  | entry | inside | over
  deriving DecidableEq, Repr

/-- `m_context`: the fiber whose flow it holds, and where. -/
structure Context (φ : Type*) where
  flow : φ
  point : Point
  deriving DecidableEq

/-- A thread: the fibers, the flow that runs, `t_fiber`, and the variable `cur` of each `MainFunc`. -/
structure Thread (φ : Type*) where
  fibers : φ → Object
  contexts : φ → Context φ
  running : φ
  this : φ
  cur : φ → Option φ

/-- What a switch does: the context it writes and the flow it writes there, the context it loads and
the flow that goes on, and, if that begins, what it takes itself for. -/
structure Switch (φ : Type*) where
  saved : φ
  flow : φ
  loaded : φ
  resumed : φ
  begins : Option φ
  deriving DecidableEq

/-- **Every flow stays with its fiber.** -/
def Switch.Own {φ : Type*} (switch : Switch φ) : Prop :=
  switch.flow = switch.saved ∧ switch.resumed = switch.loaded ∧
    ∀ body ∈ switch.begins, body = switch.loaded

/-- The calls that the running flow makes. -/
inductive Label (φ : Type*) where
  | call (fiber : φ)
  | back (fiber : φ)
  | swapIn (fiber : φ)
  | yieldToReady
  | yieldToHold
  | finish (threw : Bool)
  | reset (fiber : φ)

variable {φ : Type*} [DecidableEq φ]

namespace Thread

/-- `m_state = state`. -/
def setState (thread : Thread φ) (fiber : φ) (state : State) : Thread φ :=
  { thread with fibers :=
      Function.update thread.fibers fiber { thread.fibers fiber with state := state } }

/-- `swapcontext(&save->m_context, &load->m_context)`, where `point` is where the flow is saved. A flow
resumed at the end of `MainFunc` runs into its assertion. -/
def switch (thread : Thread φ) (save load : φ) (point : Point) :
    Option (Thread φ × Option (Switch φ)) :=
  let contexts := Function.update thread.contexts save ⟨thread.running, point⟩
  let target := contexts load
  match target.point with
  | .over => none
  | .inside =>
    some ({ thread with contexts := contexts, running := target.flow },
      some ⟨save, thread.running, load, target.flow, none⟩)
  | .entry =>
    some ({ thread with
        contexts := contexts
        running := target.flow
        cur := Function.update thread.cur target.flow (some thread.this) },
      some ⟨save, thread.running, load, target.flow, some thread.this⟩)

variable (main sched : φ)

/-- `call` and `swapIn`, by the main fiber they go through. -/
def enter (thread : Thread φ) (through fiber : φ) : Option (Thread φ × Option (Switch φ)) :=
  if (thread.fibers fiber).state = .exec then none
  else if (thread.fibers fiber).state.ended then some (thread, none)
  else ({ thread with this := fiber }.setState fiber .exec).switch through fiber .inside

/-- `back`. -/
def back (thread : Thread φ) (fiber : φ) (point : Point) : Option (Thread φ × Option (Switch φ)) :=
  let left := { thread with this := main }
  (if (thread.fibers fiber).state = .exec then left.setState fiber .ready else left).switch fiber main
    point

/-- `swapOut`. -/
def swapOut (thread : Thread φ) (fiber : φ) (point : Point) :
    Option (Thread φ × Option (Switch φ)) :=
  { thread with this := main }.switch fiber sched point

/-- One call, on a thread whose main fiber is `main` and the main fiber of whose scheduler is `sched`;
a failed assertion ends the process. -/
def step (thread : Thread φ) : Label φ → Option (Thread φ × Option (Switch φ))
  | .call fiber => thread.enter main fiber
  | .swapIn fiber => thread.enter sched fiber
  | .back fiber => thread.back main fiber .inside
  | .yieldToReady => (thread.setState thread.this .ready).swapOut main sched thread.this .inside
  | .yieldToHold => (thread.setState thread.this .hold).swapOut main sched thread.this .inside
  | .finish threw =>
    match thread.cur thread.running with
    | none => none
    | some cur =>
      let ended := thread.setState cur (if threw then .except else .term)
      if (thread.fibers cur).useCaller then ended.back main cur .over
      else ended.swapOut main sched cur .over
  | .reset fiber =>
    if (thread.fibers fiber).hasStack = true ∧
        ((thread.fibers fiber).state = .init ∨ (thread.fibers fiber).state.ended = true) then
      some ({ thread with contexts := Function.update thread.contexts fiber ⟨fiber, .entry⟩ }.setState
        fiber .init, none)
    else none

/-- A thread after its first `GetThis`, and fibers that have not run. -/
def start (useCaller : φ → Bool) : Thread φ where
  fibers fiber :=
    if fiber = main then ⟨.exec, false, false⟩ else ⟨.init, true, useCaller fiber⟩
  contexts fiber := ⟨fiber, if fiber = main then .inside else .entry⟩
  running := main
  this := main
  cur _ := none

/-- The loop of the scheduler has begun on this thread. -/
def Begun (thread : Thread φ) : Prop :=
  thread.running = sched ∨ (thread.contexts sched).point ≠ .entry

/-- **The call is made where it belongs**: `call` from the main fiber, `swapIn` from that of the
scheduler, `back` and the yields by the fiber that runs; and what leaves for the scheduler finds its
loop begun. -/
def Paired (thread : Thread φ) : Label φ → Prop
  | .call fiber => (thread.fibers fiber).state.ended = true ∨ thread.running = main
  | .swapIn fiber => (thread.fibers fiber).state.ended = true ∨ thread.running = sched
  | .back fiber => thread.running = fiber
  | .yieldToReady | .yieldToHold => thread.running = thread.this ∧ thread.Begun sched
  | .finish _ => (thread.fibers thread.running).useCaller = true ∨ thread.Begun sched
  | .reset _ => True

/-! ### Switches -/

/-- **Every flow is in its place**: a context holds the flow of its fiber, and every flow that has begun
knows its fiber. -/
structure Placed (thread : Thread φ) : Prop where
  flows : ∀ fiber, (thread.contexts fiber).flow = fiber
  begun : ∀ fiber, fiber ≠ main → (thread.contexts fiber).point ≠ .entry →
    thread.cur fiber = some fiber
  known : ∀ fiber body, thread.cur fiber = some body → body = fiber
  running : thread.running ≠ main → thread.cur thread.running = some thread.running
  mainBegun : (thread.contexts main).point ≠ .entry
  mainStack : (thread.fibers main).hasStack = false

/-- `GetThis` names the fiber that runs, but in the scheduler's loop, where it may name the main one. -/
def Named (thread : Thread φ) : Prop :=
  thread.this = thread.running ∨ thread.running = sched ∧ thread.this = main

variable {main sched} {thread : Thread φ}

theorem placed_setState (placed : thread.Placed main) (fiber : φ) (state : State) :
    (thread.setState fiber state).Placed main := by
  obtain ⟨flows, begun, known, running, mainBegun, mainStack⟩ := placed
  refine ⟨flows, begun, known, running, mainBegun, ?_⟩
  show (Function.update thread.fibers fiber _ main).hasStack = false
  by_cases isMain : main = fiber
  · subst isMain
    rw [Function.update_self]
    exact mainStack
  · rw [Function.update_of_ne isMain]
    exact mainStack

omit [DecidableEq φ] in
theorem placed_this (placed : thread.Placed main) (this : φ) :
    ({ thread with this := this } : Thread φ).Placed main :=
  ⟨placed.flows, placed.begun, placed.known, placed.running, placed.mainBegun, placed.mainStack⟩

variable {save load : φ} {point : Point} {next : Thread φ × Option (Switch φ)}

/-- The context that a switch loads: what it has just saved, or what was there. -/
theorem loaded_eq (placed : thread.Placed main) (saves : thread.running = save) :
    (Function.update thread.contexts save ⟨thread.running, point⟩ load).flow = load ∧
      (load ≠ save → (Function.update thread.contexts save ⟨thread.running, point⟩ load).point =
        (thread.contexts load).point) ∧
      (load = save → (Function.update thread.contexts save ⟨thread.running, point⟩ load).point =
        point) := by
  by_cases same : load = save
  · subst same
    rw [Function.update_self]
    exact ⟨saves, fun other => absurd rfl other, fun _ => rfl⟩
  · rw [Function.update_of_ne same]
    exact ⟨placed.flows load, fun _ => rfl, fun here => absurd here same⟩

/-- **When a switch keeps every flow with its fiber.** -/
theorem own_switch (placed : thread.Placed main) (inside : point ≠ .entry)
    (switched : thread.switch save load point = some next) :
    (∀ switch ∈ next.2, switch.Own) ↔
      thread.running = save ∧
        (load ≠ save → (thread.contexts load).point = .entry → thread.this = load) := by
  unfold switch at switched
  dsimp only at switched
  split at switched
  · cases switched
  · rename_i target
    cases switched
    constructor
    · intro own
      have saves : thread.running = save := (own _ rfl).1
      refine ⟨saves, fun other entry => ?_⟩
      rw [(loaded_eq placed saves).2.1 other, entry] at target
      cases target
    · rintro ⟨saves, _⟩ _ ⟨⟩
      exact ⟨saves, (loaded_eq placed saves).1, by rintro _ ⟨⟩⟩
  · rename_i target
    cases switched
    constructor
    · intro own
      obtain ⟨saves, _, body⟩ := own _ rfl
      exact ⟨saves, fun _ _ => body _ rfl⟩
    · rintro ⟨saves, begins⟩ _ ⟨⟩
      refine ⟨saves, (loaded_eq placed saves).1, ?_⟩
      rintro _ ⟨⟩
      by_cases same : load = save
      · rw [(loaded_eq placed saves).2.2 same] at target
        exact absurd target inside
      · rw [(loaded_eq placed saves).2.1 same] at target
        exact begins same target

/-- **A switch that does keeps everything in its place.** -/
theorem placed_switch (placed : thread.Placed main) (inside : point ≠ .entry)
    (switched : thread.switch save load point = some next) (own : ∀ switch ∈ next.2, switch.Own) :
    next.1.Placed main ∧ next.1.running = load ∧ next.1.this = thread.this := by
  obtain ⟨saves, begins⟩ := (own_switch placed inside switched).mp own
  obtain ⟨flow, other, same⟩ := @loaded_eq _ _ main thread save load point placed saves
  have flows : ∀ fiber,
      (Function.update thread.contexts save ⟨thread.running, point⟩ fiber).flow = fiber :=
    fun fiber => (loaded_eq placed saves).1
  have mainBegun :
      (Function.update thread.contexts save ⟨thread.running, point⟩ main).point ≠ .entry := by
    obtain ⟨_, elsewhere, here⟩ := @loaded_eq _ _ main thread save main point placed saves
    by_cases isMain : main = save
    · rw [here isMain]
      exact inside
    · rw [elsewhere isMain]
      exact placed.mainBegun
  have begun : ∀ fiber, fiber ≠ main →
      (Function.update thread.contexts save ⟨thread.running, point⟩ fiber).point ≠ .entry →
        thread.cur fiber = some fiber := by
    intro fiber notMain notEntry
    obtain ⟨_, elsewhere, _⟩ := @loaded_eq _ _ main thread save fiber point placed saves
    by_cases isSaved : fiber = save
    · rw [isSaved, ← saves] at notMain ⊢
      exact placed.running notMain
    · rw [elsewhere isSaved] at notEntry
      exact placed.begun fiber notMain notEntry
  unfold switch at switched
  dsimp only at switched
  split at switched
  · cases switched
  · rename_i target
    cases switched
    refine ⟨⟨flows, begun, placed.known, ?_, mainBegun, placed.mainStack⟩, flow, rfl⟩
    dsimp only
    rw [flow]
    exact fun notMain => begun load notMain (by rw [target]; rintro ⟨⟩)
  · rename_i target
    cases switched
    have isThis : thread.this = load := by
      by_cases isSaved : load = save
      · rw [same isSaved] at target
        exact absurd target inside
      · rw [other isSaved] at target
        exact begins isSaved target
    dsimp only
    rw [flow, isThis]
    refine ⟨⟨flows, fun fiber notMain notEntry => ?_, fun fiber body isBody => ?_, fun _ => ?_,
      mainBegun, placed.mainStack⟩, rfl, rfl⟩
    · by_cases isLoaded : fiber = load
      · subst isLoaded
        exact Function.update_self ..
      · exact (Function.update_of_ne isLoaded ..).trans (begun fiber notMain notEntry)
    · dsimp only at isBody
      by_cases isLoaded : fiber = load
      · rw [isLoaded, Function.update_self] at isBody
        exact (Option.some.inj isBody).symm.trans isLoaded.symm
      · rw [Function.update_of_ne isLoaded] at isBody
        exact placed.known fiber body isBody
    · exact Function.update_self ..

/-! ### Calls -/

/-- What a call is to show and to keep. -/
def Keeps (main sched : φ) (condition : Prop) (next : Thread φ × Option (Switch φ)) : Prop :=
  ((∀ switch ∈ next.2, switch.Own) ↔ condition) ∧
    ((∀ switch ∈ next.2, switch.Own) → next.1.Placed main ∧ next.1.Named main sched)

theorem keeps_enter (placed : thread.Placed main) (named : thread.Named main sched) {through fiber : φ}
    (entered : thread.enter through fiber = some next) :
    Keeps main sched ((thread.fibers fiber).state.ended = true ∨ thread.running = through) next := by
  unfold enter at entered
  split_ifs at entered with exec ended
  · cases entered
    exact ⟨iff_of_true (by rintro _ ⟨⟩) (Or.inl ended), fun _ => ⟨placed, named⟩⟩
  · have placed' := placed_setState (placed_this placed fiber) fiber .exec
    have own := own_switch placed' (by decide) entered
    refine ⟨own.trans ⟨fun both => Or.inr both.1, fun either => ⟨?_, fun _ _ => rfl⟩⟩, fun isOwn => ?_⟩
    · exact either.resolve_left ended
    · obtain ⟨placedNext, running, this⟩ := placed_switch placed' (by decide) entered isOwn
      exact ⟨placedNext, Or.inl (this.trans running.symm)⟩

theorem keeps_back (placed : thread.Placed main) {fiber : φ} (inside : point ≠ .entry)
    (gone : thread.back main fiber point = some next) :
    Keeps main sched (thread.running = fiber) next := by
  unfold back at gone
  have left {other : Thread φ} (placed' : other.Placed main) (running : other.running = thread.running)
      (this : other.this = main) (switched : other.switch fiber main point = some next) :
      Keeps main sched (thread.running = fiber) next := by
    have own := own_switch placed' inside switched
    rw [running] at own
    refine ⟨own.trans (and_iff_left fun _ entry => absurd entry placed'.mainBegun), fun isOwn => ?_⟩
    obtain ⟨placedNext, resumed, named⟩ := placed_switch placed' inside switched isOwn
    exact ⟨placedNext, Or.inl ((named.trans this).trans resumed.symm)⟩
  dsimp only at gone
  split_ifs at gone
  · exact left (placed_setState (placed_this placed main) fiber .ready) rfl rfl gone
  · exact left (placed_this placed main) rfl rfl gone

theorem keeps_swapOut (placed : thread.Placed main) {fiber : φ} (inside : point ≠ .entry)
    (gone : thread.swapOut main sched fiber point = some next) :
    Keeps main sched (thread.running = fiber ∧ thread.Begun sched) next := by
  have placed' := placed_this placed main
  have own := own_switch placed' inside gone
  refine ⟨own.trans (and_congr_right fun saves => ?_), fun isOwn => ?_⟩
  · constructor
    · intro begins
      by_cases same : sched = fiber
      · exact Or.inl (saves.trans same.symm)
      · refine Or.inr fun entry => placed.mainBegun ?_
        rw [show main = sched from begins same entry]
        exact entry
    · rintro (loop | begun) other entry
      · exact absurd (loop.symm.trans saves) other
      · exact absurd entry begun
  · obtain ⟨placedNext, running, this⟩ := placed_switch placed' inside gone isOwn
    exact ⟨placedNext, Or.inr ⟨running, this⟩⟩

/-- **One call**: its switch keeps every flow with its fiber exactly when it is made where it belongs,
and then everything stays in its place. -/
theorem keeps_step (placed : thread.Placed main) (named : thread.Named main sched) {label : Label φ}
    (stepped : thread.step main sched label = some next) :
    Keeps main sched (thread.Paired main sched label) next := by
  cases label with
  | call fiber => exact keeps_enter placed named stepped
  | swapIn fiber => exact keeps_enter placed named stepped
  | back fiber => exact keeps_back placed (by decide) stepped
  | yieldToReady => exact keeps_swapOut (placed_setState placed _ _) (by decide) stepped
  | yieldToHold => exact keeps_swapOut (placed_setState placed _ _) (by decide) stepped
  | finish threw =>
      unfold step at stepped
      dsimp only at stepped
      cases isCur : thread.cur thread.running with
      | none =>
          rw [isCur] at stepped
          cases stepped
      | some cur =>
          rw [isCur] at stepped
          obtain rfl : cur = thread.running := placed.known _ _ isCur
          dsimp only at stepped
          by_cases useCaller : (thread.fibers thread.running).useCaller = true
          · rw [if_pos useCaller] at stepped
            have kept := @keeps_back _ _ main sched _ _ _ (placed_setState placed _ _) _ (by decide) stepped
            refine ⟨kept.1.trans (iff_of_true rfl (Or.inl useCaller)), kept.2⟩
          · rw [if_neg useCaller] at stepped
            have kept := keeps_swapOut (placed_setState placed _ _) (by decide) stepped
            refine ⟨kept.1.trans ⟨fun both => Or.inr both.2, fun either => ⟨rfl, ?_⟩⟩, kept.2⟩
            exact either.resolve_left useCaller
  | reset fiber =>
      unfold step at stepped
      dsimp only at stepped
      split_ifs at stepped with may
      cases stepped
      have other : main ≠ fiber := by
        rintro rfl
        rw [placed.mainStack] at may
        exact Bool.false_ne_true may.1
      refine ⟨iff_of_true (by rintro _ ⟨⟩) trivial, fun _ => ⟨placed_setState ?_ _ _, named⟩⟩
      refine ⟨fun one => ?_, fun one notMain notEntry => ?_, placed.known, placed.running, ?_,
        placed.mainStack⟩
      · show (Function.update thread.contexts fiber ⟨fiber, .entry⟩ one).flow = one
        by_cases same : one = fiber
        · rw [same, Function.update_self]
        · rw [Function.update_of_ne same]
          exact placed.flows one
      · dsimp only at notEntry
        by_cases same : one = fiber
        · rw [same, Function.update_self] at notEntry
          exact absurd rfl notEntry
        · rw [Function.update_of_ne same] at notEntry
          exact placed.begun one notMain notEntry
      · show (Function.update thread.contexts fiber ⟨fiber, .entry⟩ main).point ≠ .entry
        rw [Function.update_of_ne other]
        exact placed.mainBegun

/-! ### Runs -/

theorem placed_start (useCaller : φ → Bool) : (start main useCaller).Placed main where
  flows _ := rfl
  begun fiber notMain notEntry := absurd (if_neg notMain) notEntry
  known _ _ isBody := absurd isBody (by rintro ⟨⟩)
  running other := absurd rfl other
  mainBegun entry := by
    rw [show ((start main useCaller).contexts main).point = .inside from if_pos rfl] at entry
    cases entry
  mainStack := by
    show (if main = main then _ else _ : Object).hasStack = false
    rw [if_pos rfl]

end Thread

open Thread

/-- **No flow is lost or mistaken for another** in a run of a thread: every switch saves the flow of a
fiber in its own context, resumes the flow of the fiber it goes to, and starts it on its own body,
exactly when every call is made where it belongs. -/
theorem switches_iff (main sched : φ) (useCaller : φ → Bool) (labels : List (Label φ))
    (final : Thread φ) (switches : List (Option (Switch φ)))
    (executed : Labelled.trace (fun thread => Thread.step main sched thread) (start main useCaller)
      labels = some (final, switches)) :
    (∀ output ∈ switches, ∀ switch ∈ output, switch.Own) ↔
      Labelled.Meets (fun thread => Thread.step main sched thread)
        (fun thread => Thread.Paired main sched thread) (start main useCaller) labels := by
  have keeps : ∀ (thread : Thread φ) (label : Label φ) (next : Thread φ × Option (Switch φ)),
      thread.Placed main ∧ thread.Named main sched → thread.step main sched label = some next →
        Keeps main sched (thread.Paired main sched label) next :=
    fun _ _ _ holds stepped => keeps_step holds.1 holds.2 stepped
  exact Labelled.trace_shown_iff keeps labels ⟨placed_start useCaller, Or.inl rfl⟩ executed

/-- The thread of a scheduler that uses its caller: the root fiber runs fiber `2` twice, and both end. -/
theorem switches_useCaller :
    Labelled.Meets (fun thread => Thread.step 0 1 thread) (fun thread => Thread.Paired 0 1 thread)
      (start 0 fun fiber : ℕ => fiber = 1)
      [.call 1, .swapIn 2, .yieldToHold, .swapIn 2, .finish false, .finish false] := by
  refine (switches_iff 0 1 (fun fiber : ℕ => fiber = 1)
    [.call 1, .swapIn 2, .yieldToHold, .swapIn 2, .finish false, .finish false] _
    [some ⟨0, 0, 1, 1, some 1⟩, some ⟨1, 1, 2, 2, some 2⟩, some ⟨2, 2, 1, 1, none⟩,
      some ⟨1, 1, 2, 2, none⟩, some ⟨2, 2, 1, 1, none⟩, some ⟨1, 1, 0, 0, none⟩] rfl).mp ?_
  simp [Switch.Own]

end Wyze.Fiber
