/-
**Contexts, and the files they were made for.**

A hooked `socket` or `accept` first gets its fd from the kernel and then puts a context for it into the
table; a hooked `close` looks for the context, cancels the events, takes the context out and only then
gives the fd back. The other threads go on between any two of these. `accept` makes a context on every
thread, `socket` and `close` do their part only where the hooks are on, and a context knows the number
of its fd but not the file that was behind it.

* `placed_step`: what the threads do to the files and to each other's fds.
* `sound_step`: the tables stay in order, where a step from a state without stale contexts leads to one.
* `contexts_fresh_iff`: **no context is ever that of another file, or of none, exactly when every `close`
  of an fd with a context is made where the hooks are on**.
-/
import Wyze.Hook.FdManager

namespace Wyze.Lifetime

open Labelled

/-- An open file: which one it is, whether it is a socket, and its `O_NONBLOCK`. -/
structure File where
  number : Nat
  isSocket : Bool
  nonblock : Bool
  deriving DecidableEq

/-- What a thread is about to do: `get(fd, true)` in `socket` or `accept`; `get(fd)`, `canceAll`, `del`
and `close_f` in `close`. -/
inductive Phase where
  | idle
  | registering (fd : Int)
  | closing (fd : Int)
  | cancelling (fd : Int)
  | deleting (fd : Int)
  | shutting (fd : Int)
  deriving DecidableEq

/-- The fd that a call is about. -/
def Phase.fd : Phase → Option Int
  | .idle => none
  | .registering fd | .closing fd | .cancelling fd | .deleting fd | .shutting fd => some fd

/-- A process: its open files and how many there have been, the table of contexts with the file that each
context was made for, `t_hook_enable` and the call of each thread, and the fds that a call has returned
and that nobody has begun to close. -/
structure Process (τ : Type*) where
  files : Int → Option File
  opened : Nat
  table : FdManager
  madeFor : List Nat
  hooks : τ → Bool
  phases : τ → Phase
  held : Int → Bool

/-- What a thread does: it begins a call, with the fd that the kernel gives it, or goes on with it. A
call of another kind opens a file of any sort, without a hook. -/
inductive Label (τ : Type*) where
  | setHook (thread : τ) (on : Bool)
  | socket (thread : τ) (fd : Int) (nonblock : Bool)
  | accept (thread : τ) (fd : Int) (nonblock : Bool)
  | other (thread : τ) (fd : Int) (isSocket nonblock : Bool)
  | close (thread : τ) (fd : Int)
  | go (thread : τ)

variable {τ : Type*} [DecidableEq τ]

namespace Process

def start : Process τ where
  files _ := none
  opened := 0
  table := .new
  madeFor := []
  hooks _ := false
  phases _ := .idle
  held _ := false

def setPhase (process : Process τ) (thread : τ) (phase : Phase) : Process τ :=
  { process with phases := Function.update process.phases thread phase }

/-- The kernel opens a file under an fd that is free. -/
def arrive (process : Process τ) (thread : τ) (fd : Int) (isSocket nonblock : Bool) (phase : Phase) :
    Option (Process τ) :=
  if process.phases thread = .idle ∧ 0 ≤ fd ∧ process.files fd = none then
    some { process.setPhase thread phase with
      files := Function.update process.files fd (some ⟨process.opened, isSocket, nonblock⟩)
      opened := process.opened + 1
      held := Function.update process.held fd (phase = .idle) }
  else none

/-- `fstat` on an fd. -/
def stat (process : Process τ) (fd : Int) : Option Bool := (process.files fd).map File.isSocket

/-- `FdMgr::get(fd, true)`; where it makes a context, `FdCtx::init` sets `O_NONBLOCK` of a socket. -/
def register (process : Process τ) (thread : τ) (fd : Int) : Option (Process τ) :=
  (process.table.get (fun _ => process.stat) fd true).map fun next =>
    { process.setPhase thread .idle with
      table := next.1
      files := if process.table.contexts.length < next.1.contexts.length then
          Function.update process.files fd ((process.files fd).map fun file =>
            { file with nonblock := file.nonblock || file.isSocket })
        else process.files
      madeFor := if process.table.contexts.length < next.1.contexts.length then
          process.madeFor ++ ((process.files fd).map File.number).toList
        else process.madeFor
      held := Function.update process.held fd true }

/-- The thread goes on with its call. -/
def go (process : Process τ) (thread : τ) : Option (Process τ) :=
  match process.phases thread with
  | .idle => none
  | .registering fd => process.register thread fd
  | .closing fd =>
    (process.table.get (fun _ => process.stat) fd false).map fun next =>
      { process with table := next.1 }.setPhase thread
        (if next.2.isSome then .cancelling fd else .shutting fd)
  | .cancelling fd => some (process.setPhase thread (.deleting fd))
  | .deleting fd =>
    (process.table.del fd).map fun table =>
      { process with table := table }.setPhase thread (.shutting fd)
  | .shutting fd =>
    some { process.setPhase thread .idle with files := Function.update process.files fd none }

/-- One step; nobody closes an fd that no call has returned, or that somebody is closing already. -/
def step (process : Process τ) : Label τ → Option (Process τ × Unit)
  | .setHook thread on =>
    if process.phases thread = .idle then
      some ({ process with hooks := Function.update process.hooks thread on }, ())
    else none
  | .socket thread fd nonblock =>
    (process.arrive thread fd true nonblock
      (if process.hooks thread then .registering fd else .idle)).map (·, ())
  | .accept thread fd nonblock =>
    (process.arrive thread fd true nonblock (.registering fd)).map (·, ())
  | .other thread fd isSocket nonblock =>
    (process.arrive thread fd isSocket nonblock .idle).map (·, ())
  | .close thread fd =>
    if process.phases thread = .idle ∧ process.held fd = true then
      some ({ process with held := Function.update process.held fd false }.setPhase thread
        (if process.hooks thread then .closing fd else .shutting fd), ())
    else none
  | .go thread => (process.go thread).map (·, ())

/-- **No context is stale**: each is that of the file that is open under its fd, says what this is, and
the kernel does not block on it where it is a socket. -/
def Fresh (process : Process τ) : Prop :=
  ∀ fd ptr, process.table.find fd = some ptr → ∃ file ctx, process.files fd = some file ∧
    process.table.contexts[ptr]? = some ctx ∧ process.madeFor[ptr]? = some file.number ∧
    ctx.isSocket = file.isSocket ∧ ctx.sysNonblock = file.isSocket ∧
    (file.isSocket = true → file.nonblock = true)

/-- The fd that the thread is about to give back has no context, or its hooks are on. -/
def Hooked (process : Process τ) : Label τ → Prop
  | .go thread => ∀ fd, process.phases thread = .shutting fd →
      process.hooks thread = true ∨ process.table.find fd = none
  | _ => True

instance hookedDecidable (process : Process τ) : ∀ label, Decidable (process.Hooked label)
  | .go thread =>
    match isPhase : process.phases thread with
    | .shutting fd =>
      decidable_of_iff (process.hooks thread = true ∨ process.table.find fd = none)
        ⟨fun hooked fd' shutting => by
          cases isPhase.symm.trans shutting
          exact hooked, fun hooked => hooked fd isPhase⟩
    | .idle | .registering _ | .closing _ | .cancelling _ | .deleting _ =>
      .isTrue fun fd' shutting => by cases isPhase.symm.trans shutting
  | .setHook .. | .socket .. | .accept .. | .other .. | .close .. => .isTrue trivial

/-! ### Threads and files -/

/-- **Every fd is in one place**: with the one thread whose call is about it, or returned to its user. -/
structure Placed (process : Process τ) : Prop where
  busy : ∀ thread fd, (process.phases thread).fd = some fd →
    0 ≤ fd ∧ process.files fd ≠ none ∧ process.held fd = false
  alone : ∀ first second fd, (process.phases first).fd = some fd →
    (process.phases second).fd = some fd → first = second
  held : ∀ fd, process.held fd = true → 0 ≤ fd ∧ process.files fd ≠ none

variable {process next : Process τ} {thread : τ} {phase : Phase} {fd : Int}

/-- What a step of one thread has to say for the others. -/
theorem placed_of (placed : process.Placed)
    (phases : next.phases = Function.update process.phases thread phase)
    (own : ∀ fd, phase.fd = some fd → 0 ≤ fd ∧ next.files fd ≠ none ∧ next.held fd = false ∧
      ∀ other, other ≠ thread → (process.phases other).fd ≠ some fd)
    (others : ∀ other fd, other ≠ thread → (process.phases other).fd = some fd →
      next.files fd ≠ none ∧ next.held fd = false)
    (held : ∀ fd, next.held fd = true → 0 ≤ fd ∧ next.files fd ≠ none) : next.Placed := by
  refine ⟨fun one fd about => ?_, fun first second fd aboutFirst aboutSecond => ?_, held⟩
  · rw [phases] at about
    by_cases same : one = thread
    · rw [same, Function.update_self] at about
      obtain ⟨nonneg, isOpen, notHeld, _⟩ := own fd about
      exact ⟨nonneg, isOpen, notHeld⟩
    · rw [Function.update_of_ne same] at about
      exact ⟨(placed.busy one fd about).1, others one fd same about⟩
  · rw [phases] at aboutFirst aboutSecond
    by_cases isFirst : first = thread
    · by_cases isSecond : second = thread
      · exact isFirst.trans isSecond.symm
      · rw [isFirst, Function.update_self] at aboutFirst
        rw [Function.update_of_ne isSecond] at aboutSecond
        exact absurd aboutSecond ((own fd aboutFirst).2.2.2 second isSecond)
    · rw [Function.update_of_ne isFirst] at aboutFirst
      by_cases isSecond : second = thread
      · rw [isSecond, Function.update_self] at aboutSecond
        exact absurd aboutFirst ((own fd aboutSecond).2.2.2 first isFirst)
      · rw [Function.update_of_ne isSecond] at aboutSecond
        exact placed.alone first second fd aboutFirst aboutSecond

omit [DecidableEq τ] in
/-- Nobody else is about the fd of a call. -/
theorem apart (placed : process.Placed) (about : (process.phases thread).fd = some fd) {other : τ}
    {fd' : Int} (different : other ≠ thread) (about' : (process.phases other).fd = some fd') :
    fd' ≠ fd := by
  rintro rfl
  exact different (placed.alone other thread fd' about' about)

/-- A thread goes from one phase of its call to the next. -/
theorem placed_setPhase (placed : process.Placed) {before : Phase}
    (isBefore : process.phases thread = before) (same : phase.fd = before.fd) :
    (process.setPhase thread phase).Placed := by
  refine placed_of placed rfl (fun fd about => ?_) (fun other fd _ about => ?_) placed.held
  · rw [same, ← isBefore] at about
    obtain ⟨nonneg, isOpen, notHeld⟩ := placed.busy thread fd about
    exact ⟨nonneg, isOpen, notHeld, fun other different about' =>
      different (placed.alone other thread fd about' about)⟩
  · exact (placed.busy other fd about).2

theorem arrive_eq_some {isSocket nonblock : Bool}
    (arrived : process.arrive thread fd isSocket nonblock phase = some next) :
    process.phases thread = .idle ∧ 0 ≤ fd ∧ process.files fd = none ∧
      next = { process.setPhase thread phase with
        files := Function.update process.files fd (some ⟨process.opened, isSocket, nonblock⟩)
        opened := process.opened + 1
        held := Function.update process.held fd (phase = .idle) } := by
  unfold arrive at arrived
  split_ifs at arrived with free
  exact ⟨free.1, free.2.1, free.2.2, (Option.some.inj arrived).symm⟩

theorem placed_arrive (placed : process.Placed) {isSocket nonblock : Bool}
    (only : ∀ fd', phase.fd = some fd' → fd' = fd)
    (arrived : process.arrive thread fd isSocket nonblock phase = some next) : next.Placed := by
  obtain ⟨_, nonneg, free, rfl⟩ := arrive_eq_some arrived
  have elsewhere : ∀ other fd', (process.phases other).fd = some fd' → fd' ≠ fd := by
    rintro other fd' about rfl
    exact (placed.busy other fd' about).2.1 free
  refine placed_of placed rfl (fun fd' about => ?_) (fun other fd' _ about => ?_) fun fd' isHeld => ?_
  · obtain rfl := only fd' about
    refine ⟨nonneg, ?_, ?_, fun other _ about' => elsewhere other fd' about' rfl⟩
    · dsimp only
      rw [Function.update_self]
      exact Option.some_ne_none _
    · dsimp only
      rw [Function.update_self]
      refine decide_eq_false ?_
      rintro rfl
      cases about
  · dsimp only
    have differ := elsewhere other fd' about
    rw [Function.update_of_ne differ, Function.update_of_ne differ]
    exact (placed.busy other fd' about).2
  · dsimp only at isHeld ⊢
    by_cases same : fd' = fd
    · rw [same, Function.update_self]
      exact ⟨nonneg, Option.some_ne_none _⟩
    · rw [Function.update_of_ne same] at isHeld ⊢
      exact placed.held fd' isHeld

/-- The file under an fd stays open while `O_NONBLOCK` is set. -/
theorem register_eq_some (registered : process.register thread fd = some next) :
    ∃ table ptr, process.table.get (fun _ => process.stat) fd true = some (table, ptr) ∧
      next.table = table ∧ next.phases = Function.update process.phases thread .idle ∧
      next.hooks = process.hooks ∧ next.held = Function.update process.held fd true ∧
      (∀ fd', next.files fd' ≠ none ↔ process.files fd' ≠ none) ∧
      (∀ fd', fd' ≠ fd → next.files fd' = process.files fd') := by
  obtain ⟨⟨table, ptr⟩, got, rfl⟩ := Option.map_eq_some_iff.mp registered
  refine ⟨table, ptr, got, rfl, rfl, rfl, rfl, fun fd' => ?_, fun fd' different => ?_⟩
  · dsimp only
    split_ifs
    · by_cases same : fd' = fd
      · rw [same, Function.update_self]
        simp
      · rw [Function.update_of_ne same]
    · rfl
  · dsimp only
    split_ifs
    · exact Function.update_of_ne different ..
    · rfl

theorem placed_go (placed : process.Placed) (gone : process.go thread = some next) : next.Placed := by
  unfold go at gone
  cases isPhase : process.phases thread with
  | idle =>
      rw [isPhase] at gone
      cases gone
  | registering fd =>
      rw [isPhase] at gone
      have about : (process.phases thread).fd = some fd := congrArg Phase.fd isPhase
      obtain ⟨nonneg, isOpen, _⟩ := placed.busy thread fd about
      obtain ⟨_, _, _, _, phases, _, isHeld, files, _⟩ := register_eq_some gone
      refine placed_of placed phases (by rintro _ ⟨⟩) (fun other fd' different about' => ?_)
        fun fd' held => ?_
      · rw [files, isHeld, Function.update_of_ne (apart placed about different about')]
        exact (placed.busy other fd' about').2
      · rw [files]
        rw [isHeld] at held
        by_cases same : fd' = fd
        · rw [same]
          exact ⟨nonneg, isOpen⟩
        · rw [Function.update_of_ne same] at held
          exact placed.held fd' held
  | closing fd =>
      rw [isPhase] at gone
      obtain ⟨⟨table, ptr⟩, _, rfl⟩ := Option.map_eq_some_iff.mp gone
      have placed' : ({ process with table := table } : Process τ).Placed :=
        ⟨placed.busy, placed.alone, placed.held⟩
      refine placed_setPhase placed' isPhase ?_
      split_ifs <;> rfl
  | cancelling fd =>
      rw [isPhase] at gone
      cases gone
      exact placed_setPhase placed isPhase rfl
  | deleting fd =>
      rw [isPhase] at gone
      obtain ⟨table, _, rfl⟩ := Option.map_eq_some_iff.mp gone
      have placed' : ({ process with table := table } : Process τ).Placed :=
        ⟨placed.busy, placed.alone, placed.held⟩
      exact placed_setPhase placed' isPhase rfl
  | shutting fd =>
      rw [isPhase] at gone
      cases gone
      have about : (process.phases thread).fd = some fd := congrArg Phase.fd isPhase
      have notHeld := (placed.busy thread fd about).2.2
      refine placed_of placed rfl (by rintro _ ⟨⟩) (fun other fd' different about' => ?_)
        fun fd' held => ?_
      · dsimp only
        rw [Function.update_of_ne (apart placed about different about')]
        exact (placed.busy other fd' about').2
      · have other : fd' ≠ fd := by
          rintro rfl
          exact Bool.false_ne_true (notHeld.symm.trans held)
        dsimp only
        rw [Function.update_of_ne other]
        exact placed.held fd' held

theorem placed_step (placed : process.Placed) {label : Label τ} {result : Process τ × Unit}
    (stepped : process.step label = some result) : result.1.Placed := by
  cases label with
  | setHook thread on =>
      unfold step at stepped
      dsimp only at stepped
      split_ifs at stepped
      cases stepped
      exact ⟨placed.busy, placed.alone, placed.held⟩
  | socket thread fd nonblock =>
      obtain ⟨next, arrived, rfl⟩ := Option.map_eq_some_iff.mp stepped
      refine placed_arrive placed (fun fd' about => ?_) arrived
      split at about
      · exact (Option.some.inj about).symm
      · cases about
  | accept thread fd nonblock =>
      obtain ⟨next, arrived, rfl⟩ := Option.map_eq_some_iff.mp stepped
      refine placed_arrive placed (fun fd' about => ?_) arrived
      exact (Option.some.inj about).symm
  | other thread fd isSocket nonblock =>
      obtain ⟨next, arrived, rfl⟩ := Option.map_eq_some_iff.mp stepped
      exact placed_arrive placed (by rintro _ ⟨⟩) arrived
  | close thread fd =>
      obtain ⟨may, done⟩ := Option.ite_none_right_eq_some.mp stepped
      cases done
      obtain ⟨nonneg, isOpen⟩ := placed.held fd may.2
      have elsewhere : ∀ other fd', (process.phases other).fd = some fd' → fd' ≠ fd := by
        rintro other fd' about rfl
        exact Bool.false_ne_true ((placed.busy other fd' about).2.2.symm.trans may.2)
      refine placed_of placed rfl (fun fd' about => ?_) (fun other fd' _ about => ?_) fun fd' held => ?_
      · obtain rfl : fd' = fd := by
          split at about
          · exact (Option.some.inj about).symm
          · exact (Option.some.inj about).symm
        exact ⟨nonneg, isOpen, Function.update_self .., fun other _ about' =>
          elsewhere other fd' about' rfl⟩
      · obtain ⟨_, isOpen', notHeld⟩ := placed.busy other fd' about
        exact ⟨isOpen', (Function.update_of_ne (elsewhere other fd' about) ..).trans notHeld⟩
      · have other : fd' ≠ fd := by
          rintro rfl
          have isHeld : Function.update process.held fd' false fd' = true := held
          rw [Function.update_self] at isHeld
          exact Bool.false_ne_true isHeld
        exact placed.held fd' ((Function.update_of_ne other ..).symm.trans held)
  | go thread =>
      obtain ⟨next, gone, rfl⟩ := Option.map_eq_some_iff.mp stepped
      exact placed_go placed gone

/-! ### The table -/

section Table

variable {table : FdManager} {fstat : Nat → Int → Option Bool}

theorem get_new (valid : table.Valid) (nonneg : 0 ≤ fd) (absent : table.find fd = none)
    {result : FdManager × Option Nat} (got : table.get fstat fd true = some result) :
    result.1.Valid ∧ result.1.find = Function.update table.find fd (some table.contexts.length) ∧
      result.1.contexts =
        table.contexts ++ [FdCtx.new fd (fstat table.contexts.length fd)] := by
  have absent' : table.toMap.find fd = none := absent
  obtain ⟨kept, _, maps⟩ :=
    FdManager.step_eq_some valid (show 0 ≤ (FdManager.Call.get fd true).fd from nonneg) got
  rw [FdMap.step_create absent'] at maps
  have maps' := congrArg Prod.fst maps
  exact ⟨kept, (congrArg FdMap.find maps').symm, (congrArg FdMap.contexts maps').symm⟩

theorem get_seen (valid : table.Valid) (nonneg : 0 ≤ fd) {result : FdManager × Option Nat}
    (got : table.get fstat fd false = some result) :
    result.1.Valid ∧ result.1.find = table.find ∧ result.1.contexts = table.contexts ∧
      result.2 = table.find fd := by
  obtain ⟨kept, _, maps⟩ :=
    FdManager.step_eq_some valid (show 0 ≤ (FdManager.Call.get fd false).fd from nonneg) got
  have maps' := congrArg Prod.fst maps
  exact ⟨kept, (congrArg FdMap.find maps').symm, (congrArg FdMap.contexts maps').symm,
    (congrArg Prod.snd maps).symm⟩

theorem del_gone (valid : table.Valid) (nonneg : 0 ≤ fd) {table' : FdManager}
    (deleted : table.del fd = some table') :
    table'.Valid ∧ table'.find = Function.update table.find fd none ∧
      table'.contexts = table.contexts := by
  have stepped : FdManager.step (fun _ _ => none) table (.del fd) = some (table', none) := by
    unfold FdManager.step
    dsimp only
    rw [deleted]
    rfl
  obtain ⟨kept, _, maps⟩ :=
    FdManager.step_eq_some valid (show 0 ≤ (FdManager.Call.del fd).fd from nonneg) stepped
  have maps' := congrArg Prod.fst maps
  exact ⟨kept, (congrArg FdMap.find maps').symm, (congrArg FdMap.contexts maps').symm⟩

end Table

/-- **The table is in order**: an fd has no context before its first `get`, nor, where the hooks are on,
when it is about to be given back. -/
structure Ordered (process : Process τ) : Prop where
  valid : process.table.Valid
  counted : process.madeFor.length = process.table.contexts.length
  without : ∀ thread fd, process.phases thread = .registering fd ∨
    process.phases thread = .shutting fd ∧ process.hooks thread = true → process.table.find fd = none

/-- What a step of one thread has to say for the others. -/
theorem ordered_of (ordered : process.Ordered) (valid : next.table.Valid)
    (counted : next.madeFor.length = next.table.contexts.length)
    (phases : next.phases = Function.update process.phases thread phase)
    (hooks : next.hooks = process.hooks)
    (own : ∀ fd, phase = .registering fd ∨ phase = .shutting fd ∧ process.hooks thread = true →
      next.table.find fd = none)
    (others : ∀ other fd, other ≠ thread → (process.phases other).fd = some fd →
      process.table.find fd = none → next.table.find fd = none) : next.Ordered := by
  refine ⟨valid, counted, fun one fd about => ?_⟩
  rw [phases, hooks] at about
  by_cases same : one = thread
  · rw [same, Function.update_self] at about
    exact own fd about
  · rw [Function.update_of_ne same] at about
    refine others one fd same ?_ (ordered.without one fd about)
    obtain registering | ⟨shutting, _⟩ := about
    · rw [registering]
      rfl
    · rw [shutting]
      rfl

theorem ordered_setPhase (ordered : process.Ordered)
    (own : ∀ fd, phase = .registering fd ∨ phase = .shutting fd ∧ process.hooks thread = true →
      process.table.find fd = none) : (process.setPhase thread phase).Ordered :=
  ordered_of ordered ordered.valid ordered.counted rfl rfl own fun _ _ _ _ absent => absent

theorem ordered_arrive (ordered : process.Ordered) (fresh : process.Fresh) {isSocket nonblock : Bool}
    (only : phase = .idle ∨ phase = .registering fd)
    (arrived : process.arrive thread fd isSocket nonblock phase = some next) :
    next.Ordered ∧ next.Fresh := by
  obtain ⟨_, _, free, rfl⟩ := arrive_eq_some arrived
  have absent : process.table.find fd = none := by
    cases found : process.table.find fd with
    | none => rfl
    | some ptr =>
        obtain ⟨file, _, isFile, _⟩ := fresh fd ptr found
        rw [free] at isFile
        cases isFile
  constructor
  · refine ordered_of ordered ordered.valid ordered.counted rfl rfl (fun fd' about => ?_)
      fun _ _ _ _ absent => absent
    obtain rfl | rfl := only
    · obtain registering | ⟨shutting, _⟩ := about
      · cases registering
      · cases shutting
    · obtain registering | ⟨shutting, _⟩ := about
      · cases registering
        exact absent
      · cases shutting
  · intro fd' ptr found
    obtain ⟨file, ctx, isFile, rest⟩ := fresh fd' ptr found
    refine ⟨file, ctx, ?_, rest⟩
    refine (Function.update_of_ne ?_ ..).trans isFile
    rintro rfl
    rw [free] at isFile
    cases isFile

/-- **A new context** is that of the file that is open. -/
theorem ordered_register (placed : process.Placed) (ordered : process.Ordered) (fresh : process.Fresh)
    (isPhase : process.phases thread = .registering fd)
    (registered : process.register thread fd = some next) : next.Ordered ∧ next.Fresh := by
  have about : (process.phases thread).fd = some fd := congrArg Phase.fd isPhase
  obtain ⟨nonneg, isOpen, _⟩ := placed.busy thread fd about
  obtain ⟨file, isFile⟩ := Option.ne_none_iff_exists'.mp isOpen
  obtain ⟨result, got, rfl⟩ := Option.map_eq_some_iff.mp registered
  obtain ⟨valid, find, contexts⟩ :=
    get_new ordered.valid nonneg (ordered.without thread fd (Or.inl isPhase)) got
  have isMade : process.table.contexts.length < result.1.contexts.length := by
    rw [contexts, List.length_append]
    exact Nat.lt_succ_self _
  constructor
  · refine ordered_of ordered valid ?_ rfl rfl ?_ fun other fd' different about' absent => ?_
    · dsimp only
      rw [if_pos isMade, contexts, isFile, List.length_append, List.length_append, ordered.counted]
      rfl
    · rintro fd' (registering | ⟨shutting, _⟩)
      · cases registering
      · cases shutting
    · dsimp only
      rw [find, Function.update_of_ne (apart placed about different about')]
      exact absent
  · intro fd' ptr found
    dsimp only at found ⊢
    rw [if_pos isMade, if_pos isMade, contexts, isFile]
    rw [find] at found
    by_cases same : fd' = fd
    · rw [same, Function.update_self] at found
      cases found
      refine ⟨{ file with nonblock := file.nonblock || file.isSocket }, _, ?_,
        List.getElem?_concat_length, ?_, ?_, ?_, ?_⟩
      · rw [same, Function.update_self]
        rfl
      · rw [← ordered.counted]
        exact List.getElem?_concat_length
      · rw [stat, isFile]
        rfl
      · rw [stat, isFile]
        rfl
      · intro isSocket
        rw [isSocket]
        exact Bool.or_true _
    · rw [Function.update_of_ne same] at found
      obtain ⟨file', ctx, isFile', isCtx, number, rest⟩ := fresh fd' ptr found
      refine ⟨file', ctx, ?_, ?_, ?_, rest⟩
      · rw [Function.update_of_ne same]
        exact isFile'
      · rw [List.getElem?_append_left (List.getElem?_eq_some_iff.mp isCtx).1]
        exact isCtx
      · rw [List.getElem?_append_left (List.getElem?_eq_some_iff.mp number).1]
        exact number

/-- **The fd is given back**: a context that is still there is stale from then on. -/
theorem fresh_shutting (ordered : process.Ordered) (fresh : process.Fresh)
    (isPhase : process.phases thread = .shutting fd)
    (given : next = { process.setPhase thread .idle with
      files := Function.update process.files fd none }) :
    next.Ordered ∧ (next.Fresh ↔ process.hooks thread = true ∨ process.table.find fd = none) := by
  subst given
  constructor
  · refine ordered_of ordered ordered.valid ordered.counted rfl rfl ?_ fun _ _ _ _ absent => absent
    rintro fd' (registering | ⟨shutting, _⟩)
    · cases registering
    · cases shutting
  · constructor
    · intro fresh'
      cases found : process.table.find fd with
      | none => exact Or.inr rfl
      | some ptr =>
          obtain ⟨file, _, isFile, _⟩ := fresh' fd ptr found
          have isFile' : Function.update process.files fd none fd = some file := isFile
          rw [Function.update_self] at isFile'
          cases isFile'
    · intro hooked
      have absent : process.table.find fd = none :=
        hooked.elim (fun on => ordered.without thread fd (Or.inr ⟨isPhase, on⟩)) id
      intro fd' ptr found
      obtain ⟨file, ctx, isFile, rest⟩ := fresh fd' ptr found
      refine ⟨file, ctx, (Function.update_of_ne ?_ ..).trans isFile, rest⟩
      rintro rfl
      rw [show process.table.find fd' = some ptr from found] at absent
      cases absent

theorem keeps_go (placed : process.Placed) (ordered : process.Ordered) (fresh : process.Fresh)
    (gone : process.go thread = some next) :
    (next.Fresh ↔ process.Hooked (.go thread)) ∧ next.Ordered := by
  unfold go at gone
  have hooked_of {phase : Phase} (isPhase : process.phases thread = phase)
      (other : ∀ fd, phase ≠ .shutting fd) : process.Hooked (.go thread) := fun fd shutting =>
    absurd (isPhase.symm.trans shutting) (other fd)
  cases isPhase : process.phases thread with
  | idle =>
      rw [isPhase] at gone
      cases gone
  | registering fd =>
      rw [isPhase] at gone
      obtain ⟨ordered', fresh'⟩ := ordered_register placed ordered fresh isPhase gone
      exact ⟨iff_of_true fresh' (hooked_of isPhase (by rintro _ ⟨⟩)), ordered'⟩
  | closing fd =>
      rw [isPhase] at gone
      obtain ⟨result, got, rfl⟩ := Option.map_eq_some_iff.mp gone
      obtain ⟨nonneg, _⟩ := placed.busy thread fd (congrArg Phase.fd isPhase)
      obtain ⟨valid, find, contexts, seen⟩ := get_seen ordered.valid nonneg got
      refine ⟨iff_of_true ?_ (hooked_of isPhase (by rintro _ ⟨⟩)), ?_⟩
      · intro fd' ptr found
        have found' : result.1.find fd' = some ptr := found
        rw [find] at found'
        show ∃ file ctx, _ ∧ result.1.contexts[ptr]? = some ctx ∧ _
        rw [contexts]
        exact fresh fd' ptr found'
      · refine ordered_of ordered valid (ordered.counted.trans (congrArg List.length contexts).symm) rfl
          rfl (fun fd' about => ?_) fun _ fd' _ _ absent => (congrFun find fd').trans absent
        refine (congrFun find fd').trans ?_
        rw [seen] at about
        cases found : process.table.find fd with
        | none =>
            rw [found] at about
            obtain registering | ⟨shutting, _⟩ := about
            · cases registering
            · cases shutting
              exact found
        | some ptr =>
            rw [found] at about
            obtain registering | ⟨shutting, _⟩ := about
            · cases registering
            · cases shutting
  | cancelling fd =>
      rw [isPhase] at gone
      cases gone
      refine ⟨iff_of_true fresh (hooked_of isPhase (by rintro _ ⟨⟩)), ordered_setPhase ordered ?_⟩
      rintro fd' (registering | ⟨shutting, _⟩)
      · cases registering
      · cases shutting
  | deleting fd =>
      rw [isPhase] at gone
      obtain ⟨table, deleted, rfl⟩ := Option.map_eq_some_iff.mp gone
      have about : (process.phases thread).fd = some fd := congrArg Phase.fd isPhase
      obtain ⟨nonneg, _⟩ := placed.busy thread fd about
      obtain ⟨valid, find, contexts⟩ := del_gone ordered.valid nonneg deleted
      refine ⟨iff_of_true ?_ (hooked_of isPhase (by rintro _ ⟨⟩)), ?_⟩
      · intro fd' ptr found
        have found' : table.find fd' = some ptr := found
        rw [find] at found'
        show ∃ file ctx, _ ∧ table.contexts[ptr]? = some ctx ∧ _
        rw [contexts]
        by_cases same : fd' = fd
        · rw [same, Function.update_self] at found'
          cases found'
        · rw [Function.update_of_ne same] at found'
          exact fresh fd' ptr found'
      · refine ordered_of ordered valid (ordered.counted.trans (congrArg List.length contexts).symm) rfl
          rfl (fun fd' shutting => ?_) fun other fd' different about' absent => ?_
        · refine (congrFun find fd').trans ?_
          obtain registering | ⟨shutting, _⟩ := shutting
          · cases registering
          · cases shutting
            exact Function.update_self ..
        · refine (congrFun find fd').trans ?_
          rw [Function.update_of_ne (apart placed about different about')]
          exact absent
  | shutting fd =>
      rw [isPhase] at gone
      obtain ⟨ordered', fresh'⟩ :=
        fresh_shutting ordered fresh isPhase (Option.some.inj gone).symm
      refine ⟨fresh'.trans ⟨fun hooked fd' shutting => ?_, fun hooked => hooked fd isPhase⟩, ordered'⟩
      cases isPhase.symm.trans shutting
      exact hooked

/-- **One step** from a state in which no context is stale. -/
theorem keeps_step (placed : process.Placed) (ordered : process.Ordered) (fresh : process.Fresh)
    {label : Label τ} {result : Process τ × Unit} (stepped : process.step label = some result) :
    (result.1.Fresh ↔ process.Hooked label) ∧ result.1.Ordered := by
  cases label with
  | setHook thread on =>
      obtain ⟨idle, done⟩ := Option.ite_none_right_eq_some.mp stepped
      cases done
      refine ⟨iff_of_true fresh trivial, ordered.valid, ordered.counted, fun one fd about => ?_⟩
      refine ordered.without one fd (about.imp_right fun both => ⟨both.1, ?_⟩)
      have other : one ≠ thread := by
        rintro rfl
        cases idle.symm.trans both.1
      exact (Function.update_of_ne other ..).symm.trans both.2
  | socket thread fd nonblock =>
      obtain ⟨next, arrived, rfl⟩ := Option.map_eq_some_iff.mp stepped
      obtain ⟨ordered', fresh'⟩ := ordered_arrive ordered fresh (by split <;> simp) arrived
      exact ⟨iff_of_true fresh' trivial, ordered'⟩
  | accept thread fd nonblock =>
      obtain ⟨next, arrived, rfl⟩ := Option.map_eq_some_iff.mp stepped
      obtain ⟨ordered', fresh'⟩ := ordered_arrive ordered fresh (Or.inr rfl) arrived
      exact ⟨iff_of_true fresh' trivial, ordered'⟩
  | other thread fd isSocket nonblock =>
      obtain ⟨next, arrived, rfl⟩ := Option.map_eq_some_iff.mp stepped
      obtain ⟨ordered', fresh'⟩ := ordered_arrive ordered fresh (Or.inl rfl) arrived
      exact ⟨iff_of_true fresh' trivial, ordered'⟩
  | close thread fd =>
      obtain ⟨may, done⟩ := Option.ite_none_right_eq_some.mp stepped
      cases done
      have ordered' : ({ process with held := Function.update process.held fd false } :
          Process τ).Ordered := ⟨ordered.valid, ordered.counted, ordered.without⟩
      refine ⟨iff_of_true fresh trivial, ordered_setPhase ordered' fun fd' about => ?_⟩
      split at about
      · obtain registering | ⟨shutting, _⟩ := about
        · cases registering
        · cases shutting
      · rename_i off
        obtain registering | ⟨_, on⟩ := about
        · cases registering
        · exact absurd on off
  | go thread =>
      obtain ⟨next, gone, rfl⟩ := Option.map_eq_some_iff.mp stepped
      exact keeps_go placed ordered fresh gone

omit [DecidableEq τ] in
theorem ordered_start : (start : Process τ).Ordered where
  valid := FdManager.new_valid
  counted := rfl
  without _ fd _ := FdManager.find_new fd

end Process

open Process

/-- **No context is ever that of another file, or of none, exactly when every fd with a context is given
back where the hooks are on**, in every run of any threads in which an fd is closed by one who has it. -/
theorem contexts_fresh_iff (labels : List (Label τ)) (final : Process τ) (outputs : List Unit)
    (executed : trace Process.step start labels = some (final, outputs)) :
    (∀ position reached front, trace Process.step start (labels.take position) = some (reached, front) →
        reached.Fresh) ↔
      Meets Process.step Hooked start labels := by
  have fresh : (start : Process τ).Fresh := fun fd ptr found => by
    cases (FdManager.find_new fd).symm.trans found
  have placed : (start : Process τ).Placed :=
    ⟨by rintro _ _ ⟨⟩, by rintro _ _ _ ⟨⟩, by rintro _ ⟨⟩⟩
  have keeps : ∀ (process : Process τ) (label : Label τ) (result : Process τ × Unit),
      process.Placed ∧ process.Ordered ∧ process.Fresh → process.step label = some result →
        (result.1.Fresh ↔ process.Hooked label) ∧
          (result.1.Fresh → result.1.Placed ∧ result.1.Ordered ∧ result.1.Fresh) := by
    rintro process label result ⟨placed, ordered, fresh⟩ stepped
    obtain ⟨hooked, ordered'⟩ := keeps_step placed ordered fresh stepped
    exact ⟨hooked, fun fresh' => ⟨placed_step placed stepped, ordered', fresh'⟩⟩
  exact reached_iff keeps labels fresh ⟨placed, ordered_start, fresh⟩ executed

/-- A socket is made and closed where the hooks are on, while the main thread accepts one and closes it
where they are off: its context stays, and is that of no file. -/
theorem contexts_fresh_stale :
    ¬ ∀ position reached front, trace Process.step (start : Process Bool)
        ([.setHook true true, .socket true 5 false, .accept false 6 false, .go true, .go false,
          .close true 5, .close false 6, .go true, .go true, .go true, .go true, .go false].take
            position) = some (reached, front) → reached.Fresh := by
  intro all
  have runs : (trace Process.step (start : Process Bool)
      [.setHook true true, .socket true 5 false, .accept false 6 false, .go true, .go false,
        .close true 5, .close false 6, .go true, .go true, .go true, .go true, .go false]).isSome := by
    decide +kernel
  obtain ⟨⟨final, outputs⟩, executed⟩ := Option.isSome_iff_exists.mp runs
  have meets := (contexts_fresh_iff _ final outputs executed).mp all
  revert meets
  decide +kernel

end Wyze.Lifetime
