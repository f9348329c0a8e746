/-
**Starting and stopping a `TcpServer`.**

`start` schedules a `startAccept` for each socket and `stop` schedules a task that closes the sockets;
each `startAccept` looks at `m_isStop` before it accepts, and goes on at once where `accept` has given it
no client. `bind`, `start` and `stop` may be called at any time, the tasks run whenever the accept worker
comes to them.

* `spins_iff`: when a `startAccept` can go round and round on a socket that is closed.
* `never_spins_iff`: **no state of a run is one from which it can, exactly when no `start` is made
  between a `stop` and what this has still to bring about**.
-/
import Wyze.TcpServer.Bind
import Wyze.Lib.Repeats

namespace Wyze.TcpServer

open Labelled

/-- Where a `startAccept` is: before `while(!m_isStop)`, in `accept`, or behind the loop. -/
inductive Phase where
  | testing
  | accepting
  | ended
  deriving DecidableEq

/-- A server with its tasks: the `startAccept` of the `i`-th of `server.accepting` is at `phases i`, `stops`
tasks of `stop` have not run yet, and the sockets in `closed` are closed. -/
structure Serving (α : Type*) where
  server : TcpServer α
  phases : Nat → Phase
  stops : Nat
  closed : List Nat

/-- What is called, and what the accept worker does. -/
inductive Label (α : Type*) where
  | bind (addrs : List (α × BindOutcome)) (fails : List α)
  | start
  | stop
  | runStop
  | test (task : Nat)
  | accept (task : Nat) (client : Bool)

/-- What is seen of a step: `accept` had a client, or none. -/
inductive Event where
  | silent
  | client (task : Nat)
  | failed (task : Nat) (isClosed : Bool)
  deriving DecidableEq

variable {α : Type*}

namespace Serving

def new : Serving α := { server := .new, phases := fun _ => .testing, stops := 0, closed := [] }

def setPhase (serving : Serving α) (task : Nat) (phase : Phase) : Serving α :=
  { serving with phases := Function.update serving.phases task phase }

/-- The next step of a task that is at the phase, with its socket. -/
def at? (serving : Serving α) (task : Nat) (phase : Phase) : Option (Socket α) :=
  if serving.phases task = phase then serving.server.accepting[task]? else none

/-- One step; `accept` of a closed socket has no client. -/
def step (serving : Serving α) : Label α → Option (Serving α × Event)
  | .bind addrs fails => some ({ serving with server := (serving.server.bind addrs fails).2.1 }, .silent)
  | .start => some ({ serving with server := serving.server.start }, .silent)
  | .stop =>
    some ({ serving with
      server := { serving.server with isStop := true }
      stops := serving.stops + 1 }, .silent)
  | .runStop =>
    if serving.stops = 0 then none
    else some ({ serving with
      server := { serving.server with socks := [] }
      stops := serving.stops - 1
      closed := serving.server.socks.map Socket.id ++ serving.closed }, .silent)
  | .test task =>
    (serving.at? task .testing).map fun _ =>
      (serving.setPhase task (if !serving.server.isStop then .accepting else .ended), .silent)
  | .accept task client =>
    (serving.at? task .accepting).bind fun sock =>
      if client && decide (sock.id ∈ serving.closed) then none
      else some (serving.setPhase task .testing,
        if client then .client task else .failed task (decide (sock.id ∈ serving.closed)))

/-- The steps of the accept worker. -/
def Own : Label α → Prop
  | .runStop | .test _ | .accept _ _ => True
  | .bind _ _ | .start | .stop => False

/-- **A task can go round and round**: there is no bound to how often its `accept` fails on a closed
socket before anything is called. -/
def Spins (serving : Serving α) : Prop :=
  ∃ task, CanRepeat step Own (.failed task true) serving

/-- The socket is closed, or a task of `stop` will close it. -/
def Condemned (serving : Serving α) (sock : Socket α) : Prop :=
  sock.id ∈ serving.closed ∨ 0 < serving.stops ∧ sock.id ∈ serving.server.socks.map Socket.id

/-- The server is running and a task that has not ended has such a socket. -/
def Doomed (serving : Serving α) (task : Nat) : Prop :=
  serving.server.isStop = false ∧ serving.phases task ≠ .ended ∧
    ∃ sock, serving.server.accepting[task]? = some sock ∧ serving.Condemned sock

/-- A `start` that starts the server finds the sockets of the tasks that have not ended open, and no task
of `stop` that has sockets to close. -/
def Settled (serving : Serving α) : Label α → Prop
  | .start => serving.server.isStop = true →
      (∀ task sock, serving.phases task ≠ .ended → serving.server.accepting[task]? = some sock →
        sock.id ∉ serving.closed) ∧ (serving.stops = 0 ∨ serving.server.socks = [])
  | _ => True

/-- The ids tell the sockets apart, those of the server are open, and tasks that have not been scheduled
are at their beginning. -/
structure Sound (serving : Serving α) : Prop where
  made : ∀ sock ∈ serving.server.socks, sock.id < serving.server.made
  accepting : ∀ sock ∈ serving.server.accepting, sock.id < serving.server.made
  closed : ∀ id ∈ serving.closed, id < serving.server.made
  isOpen : ∀ sock ∈ serving.server.socks, sock.id ∉ serving.closed
  fresh : ∀ task, serving.server.accepting.length ≤ task → serving.phases task = .testing

/-! ### The steps of the worker -/

theorem at?_eq_some {serving : Serving α} {task : Nat} {phase : Phase} {sock : Socket α} :
    serving.at? task phase = some sock ↔
      serving.phases task = phase ∧ serving.server.accepting[task]? = some sock := by
  unfold at?
  exact Option.ite_none_right_eq_some

/-- A step of the worker is that of the task of a `stop`, or a task goes from one phase to another. -/
theorem own_step {serving : Serving α} {label : Label α} {next : Serving α × Event} (own : Own label)
    (stepped : step serving label = some next) :
    (0 < serving.stops ∧ next = ({ serving with
      server := { serving.server with socks := [] }
      stops := serving.stops - 1
      closed := serving.server.socks.map Socket.id ++ serving.closed }, .silent)) ∨
    (∃ task sock, serving.phases task = .testing ∧ serving.server.accepting[task]? = some sock ∧
      next = (serving.setPhase task (if !serving.server.isStop then .accepting else .ended), .silent)) ∨
    (∃ task sock client, serving.phases task = .accepting ∧
      serving.server.accepting[task]? = some sock ∧ next = (serving.setPhase task .testing,
        if client = true then .client task
        else .failed task (decide (sock.id ∈ serving.closed)))) := by
  cases label with
  | bind addrs fails => exact own.elim
  | start => exact own.elim
  | stop => exact own.elim
  | runStop =>
      unfold step at stepped
      obtain ⟨some', same⟩ := Option.ite_none_left_eq_some.mp stepped
      exact Or.inl ⟨Nat.pos_of_ne_zero some', (Option.some.inj same).symm⟩
  | test task =>
      unfold step at stepped
      obtain ⟨sock, found, same⟩ := Option.map_eq_some_iff.mp stepped
      obtain ⟨phase, placed⟩ := at?_eq_some.mp found
      exact Or.inr (Or.inl ⟨task, sock, phase, placed, same.symm⟩)
  | accept task client =>
      unfold step at stepped
      obtain ⟨sock, found, same⟩ := Option.bind_eq_some_iff.mp stepped
      obtain ⟨phase, placed⟩ := at?_eq_some.mp found
      obtain ⟨_, same⟩ := Option.ite_none_left_eq_some.mp same
      exact Or.inr (Or.inr ⟨task, sock, client, phase, placed, (Option.some.inj same).symm⟩)

/-- The worker leaves the server running or not, and its tasks with their sockets. -/
theorem own_server {serving : Serving α} {label : Label α} {next : Serving α × Event} (own : Own label)
    (stepped : step serving label = some next) :
    next.1.server.isStop = serving.server.isStop ∧
      next.1.server.accepting = serving.server.accepting := by
  rcases own_step own stepped with ⟨_, rfl⟩ | ⟨_, _, _, _, rfl⟩ | ⟨_, _, _, _, _, rfl⟩
  · exact ⟨rfl, rfl⟩
  · exact ⟨rfl, rfl⟩
  · exact ⟨rfl, rfl⟩

/-- The worker condemns no socket. -/
theorem condemned_of_own {serving : Serving α} {label : Label α} {next : Serving α × Event}
    (own : Own label) (stepped : step serving label = some next) {sock : Socket α}
    (condemned : next.1.Condemned sock) : serving.Condemned sock := by
  rcases own_step own stepped with ⟨pending, rfl⟩ | ⟨_, _, _, _, rfl⟩ | ⟨_, _, _, _, _, rfl⟩
  · rcases condemned with closed | ⟨_, member⟩
    · rcases List.mem_append.mp closed with listed | before
      · exact Or.inr ⟨pending, listed⟩
      · exact Or.inl before
    · cases member
  · exact condemned
  · exact condemned

/-- A task that is over stays so. -/
theorem over_of_own {serving : Serving α} {label : Label α} {next : Serving α × Event}
    (own : Own label) (stepped : step serving label = some next) {task : Nat}
    (over' : serving.phases task = .ended) : next.1.phases task = .ended := by
  have kept (other : Nat) (phase next : Phase) (before : serving.phases other = phase)
      (differ : phase ≠ .ended) : Function.update serving.phases other next task = .ended := by
    have apart : task ≠ other := by
      rintro rfl
      exact differ (before.symm.trans over')
    rw [Function.update_of_ne apart]
    exact over'
  rcases own_step own stepped with ⟨_, rfl⟩ | ⟨other, _, phase, _, rfl⟩ | ⟨other, _, _, phase, _, rfl⟩
  · exact over'
  · exact kept other _ _ phase nofun
  · exact kept other _ _ phase nofun

/-- The worker dooms no task. -/
theorem doomed_of_own {serving : Serving α} {label : Label α} {next : Serving α × Event}
    (own : Own label) (stepped : step serving label = some next) {task : Nat}
    (doomed : next.1.Doomed task) : serving.Doomed task := by
  obtain ⟨running, live, sock, placed, condemned⟩ := doomed
  obtain ⟨sameStop, sameTasks⟩ := own_server own stepped
  rw [sameTasks] at placed
  refine ⟨sameStop ▸ running, ?_, sock, placed, condemned_of_own own stepped condemned⟩
  exact fun ended => live (over_of_own own stepped ended)

/-! ### Going round -/

/-- What a task that is not doomed may still have to show: it can be in `accept` when its socket is
closed. -/
def potential (task : Nat) (serving : Serving α) : Nat :=
  if serving.phases task = .accepting ∧ serving.server.isStop = true then 1 else 0

theorem potential_of_ne {task other : Nat} (apart : task ≠ other) (serving : Serving α)
    (phase : Phase) : potential task (serving.setPhase other phase) = potential task serving := by
  have same : (serving.setPhase other phase).phases task = serving.phases task :=
    Function.update_of_ne apart ..
  unfold potential
  rw [same]
  rfl

theorem potential_self (task : Nat) (serving : Serving α) (phase : Phase) :
    potential task (serving.setPhase task phase) =
      if phase = .accepting ∧ serving.server.isStop = true then 1 else 0 := by
  have same : (serving.setPhase task phase).phases task = phase := Function.update_self ..
  unfold potential
  rw [same]
  rfl

/-- A task that is not doomed pays for each failure. -/
theorem pays_own {task : Nat} {serving : Serving α} {label : Label α} {next : Serving α × Event}
    (safe : ¬ serving.Doomed task) (own : Own label) (stepped : step serving label = some next) :
    ¬ next.1.Doomed task ∧
      List.count (.failed task true) [next.2] + potential task next.1 ≤ potential task serving := by
  refine ⟨fun doomed => safe (doomed_of_own own stepped doomed), ?_⟩
  rcases own_step own stepped with
    ⟨_, rfl⟩ | ⟨other, sock, phase, _, rfl⟩ | ⟨other, sock, client, phase, placed, rfl⟩
  · exact Nat.le_of_eq (Nat.zero_add _)
  · refine Nat.le_of_eq ((Nat.zero_add _).trans ?_)
    by_cases same : task = other
    · subst same
      rw [potential_self, potential]
      cases serving.server.isStop <;> simp [phase]
    · exact potential_of_ne same serving _
  · by_cases same : task = other
    · subst same
      have isOpen (running : serving.server.isStop = false) : sock.id ∉ serving.closed :=
        fun closed => safe ⟨running, phase ▸ nofun, sock, placed, Or.inl closed⟩
      rw [potential_self, potential]
      cases stop : serving.server.isStop with
      | false => cases client <;> simp [isOpen stop]
      | true =>
          have most : List.count (Event.failed task true) [if client = true then .client task
              else .failed task (decide (sock.id ∈ serving.closed))] ≤ 1 := List.count_le_length
          simpa [phase] using most
    · rw [potential_of_ne same]
      cases client <;> simp [Ne.symm same]

/-- The server runs and the task is on a closed socket. -/
def Spinning (task : Nat) (sock : Socket α) (serving : Serving α) : Prop :=
  serving.server.isStop = false ∧ serving.phases task ≠ .ended ∧
    serving.server.accepting[task]? = some sock ∧ sock.id ∈ serving.closed

/-- A task that is in `accept` comes back with no client. -/
theorem fails_accepting {task : Nat} {sock : Socket α} {serving : Serving α}
    (spinning : Spinning task sock serving) (phase : serving.phases task = .accepting) :
    step serving (.accept task false) =
      some (serving.setPhase task .testing, .failed task true) := by
  obtain ⟨_, _, placed, closed⟩ := spinning
  have found : serving.at? task .accepting = some sock := at?_eq_some.mpr ⟨phase, placed⟩
  unfold step
  simp [found, closed]

theorem spinning_setPhase {task : Nat} {sock : Socket α} {serving : Serving α} {phase : Phase}
    (spinning : Spinning task sock serving) (live : phase ≠ .ended) :
    Spinning task sock (serving.setPhase task phase) := by
  obtain ⟨running, _, placed, closed⟩ := spinning
  refine ⟨running, ?_, placed, closed⟩
  show Function.update serving.phases task phase task ≠ .ended
  rw [Function.update_self]
  exact live

/-- A task on a closed socket fails, and will fail again. -/
theorem fails_again {task : Nat} {sock : Socket α} (serving : Serving α)
    (spinning : Spinning task sock serving) :
    ∃ labels final outputs, (∀ label ∈ labels, Own label) ∧
      trace step serving labels = some (final, outputs) ∧ Event.failed task true ∈ outputs ∧
      Spinning task sock final := by
  cases phase : serving.phases task with
  | ended => exact absurd phase spinning.2.1
  | accepting =>
      refine ⟨[.accept task false], serving.setPhase task .testing, [.failed task true], ?_, ?_,
        List.mem_singleton_self _, spinning_setPhase spinning nofun⟩
      · exact List.forall_mem_singleton.mpr trivial
      · exact trace_cons_eq_some.mpr ⟨_, _, [], fails_accepting spinning phase, rfl, rfl⟩
  | testing =>
      have test : step serving (.test task) = some (serving.setPhase task .accepting, .silent) := by
        have found : serving.at? task .testing = some sock :=
          at?_eq_some.mpr ⟨phase, spinning.2.2.1⟩
        unfold step
        simp [found, spinning.1]
      have tested : Spinning task sock (serving.setPhase task .accepting) :=
        spinning_setPhase spinning nofun
      refine ⟨[.test task, .accept task false], (serving.setPhase task .accepting).setPhase task .testing,
        [.silent, .failed task true], ?_, ?_,
        List.mem_cons_of_mem _ (List.mem_singleton_self _), spinning_setPhase tested nofun⟩
      · exact List.forall_mem_cons.mpr ⟨trivial, List.forall_mem_singleton.mpr trivial⟩
      · refine trace_cons_eq_some.mpr ⟨_, _, [.failed task true], test, ?_, rfl⟩
        exact trace_cons_eq_some.mpr
          ⟨_, _, [], fails_accepting tested (Function.update_self ..), rfl, rfl⟩

/-- **Going round and round** is what a task can do that is on a closed socket, or will be. -/
theorem spins_iff (serving : Serving α) : serving.Spins ↔ ∃ task, serving.Doomed task := by
  apply exists_congr
  intro task
  constructor
  · intro repeats
    by_contra safe
    refine @not_canRepeat_of_potential _ _ _ _ step Own _ (fun serving => ¬ serving.Doomed task)
      (potential task) ?_ serving safe repeats
    exact fun _ _ _ kept own stepped => pays_own kept own stepped
  · rintro ⟨running, live, sock, placed, condemned⟩
    rcases condemned with closed | ⟨pending, member⟩
    · exact canRepeat_of_progress (@fails_again α task sock) ⟨running, live, placed, closed⟩
    · have closes : step serving .runStop = some ({ serving with
          server := { serving.server with socks := [] }
          stops := serving.stops - 1
          closed := serving.server.socks.map Socket.id ++ serving.closed }, .silent) :=
        if_neg (Nat.ne_of_gt pending)
      have each : ∀ label ∈ [(.runStop : Label α)], Own label := fun _ member =>
        List.mem_singleton.mp member ▸ trivial
      refine canRepeat_of_trace each (trace_cons_eq_some.mpr ⟨_, _, [], closes, rfl, rfl⟩) ?_
      refine canRepeat_of_progress (@fails_again α task sock) ⟨running, live, placed, ?_⟩
      exact List.mem_append_left _ member

/-! ### Runs -/

theorem sound_new : Sound (new : Serving α) where
  made := nofun
  accepting := nofun
  closed := nofun
  isOpen := nofun
  fresh _ _ := rfl

/-- The sockets that are opened have ids that no earlier socket has. -/
theorem le_of_mem_opened {addrs : List (α × BindOutcome)} {made : Nat} {sock : Socket α}
    (member : sock ∈ opened made addrs) : made ≤ sock.id ∧ sock.id < made + addrs.length := by
  induction addrs generalizing made with
  | nil => cases member
  | cons addr addrs ih =>
      obtain ⟨addr, outcome⟩ := addr
      have later (member : sock ∈ opened (made + 1) addrs) :
          made ≤ sock.id ∧ sock.id < made + (addrs.length + 1) := by
        obtain ⟨low, high⟩ := ih member
        omega
      cases outcome with
      | bindFails => exact later member
      | listenFails => exact later member
      | listening =>
          rcases List.mem_cons.mp member with rfl | member
          · exact ⟨Nat.le_refl _, Nat.lt_add_of_pos_right (Nat.succ_pos _)⟩
          · exact later member

/-- What `bind` does to a server: it makes sockets, and may have some of them and those before, or none. -/
theorem bind_server (server : TcpServer α) (addrs : List (α × BindOutcome)) (fails : List α) :
    (server.bind addrs fails).2.1.isStop = server.isStop ∧
      (server.bind addrs fails).2.1.accepting = server.accepting ∧
      (server.bind addrs fails).2.1.made = server.made + addrs.length ∧
      ∀ sock ∈ (server.bind addrs fails).2.1.socks,
        sock ∈ server.socks ∨ server.made ≤ sock.id ∧ sock.id < server.made + addrs.length := by
  rcases bind_spec server addrs fails with ⟨_, _, bound⟩ | ⟨_, bound⟩
  · rw [bound]
    refine ⟨rfl, rfl, rfl, fun sock member => ?_⟩
    exact (List.mem_append.mp member).imp_right le_of_mem_opened
  · rw [bound]
    exact ⟨rfl, rfl, rfl, nofun⟩

theorem sound_own {serving : Serving α} (sound : Sound serving) {label : Label α}
    {next : Serving α × Event} (own : Own label) (stepped : step serving label = some next) :
    Sound next.1 := by
  have moved {task : Nat} {sock : Socket α} (placed : serving.server.accepting[task]? = some sock)
      (phase : Phase) : Sound (serving.setPhase task phase) := by
    refine ⟨sound.made, sound.accepting, sound.closed, sound.isOpen, fun other beyond => ?_⟩
    have apart : other ≠ task := by
      rintro rfl
      exact Nat.not_lt.mpr beyond (List.getElem?_eq_some_iff.mp placed).1
    exact (Function.update_of_ne apart ..).trans (sound.fresh other beyond)
  rcases own_step own stepped with ⟨_, rfl⟩ | ⟨_, _, _, placed, rfl⟩ | ⟨_, _, _, _, placed, rfl⟩
  · refine ⟨nofun, sound.accepting, fun id closed => ?_, nofun, sound.fresh⟩
    rcases List.mem_append.mp closed with listed | before
    · obtain ⟨sock, member, rfl⟩ := List.mem_map.mp listed
      exact sound.made sock member
    · exact sound.closed id before
  · exact moved placed _
  · exact moved placed _

theorem sound_step {serving : Serving α} (sound : Sound serving) {label : Label α}
    {next : Serving α × Event} (stepped : step serving label = some next) : Sound next.1 := by
  cases label with
  | bind addrs fails =>
      cases stepped
      obtain ⟨_, accepting, made, socks⟩ := bind_server serving.server addrs fails
      constructor
      · intro sock member
        rw [made]
        rcases socks sock member with before | ⟨_, high⟩
        · exact Nat.lt_add_right _ (sound.made sock before)
        · exact high
      · rw [accepting, made]
        exact fun sock member => Nat.lt_add_right _ (sound.accepting sock member)
      · rw [made]
        exact fun id closed => Nat.lt_add_right _ (sound.closed id closed)
      · intro sock member closed
        rcases socks sock member with before | ⟨low, _⟩
        · exact sound.isOpen sock before closed
        · exact Nat.not_lt.mpr low (sound.closed _ closed)
      · rw [accepting]
        exact sound.fresh
  | start =>
      cases stepped
      unfold TcpServer.start
      cases stop : serving.server.isStop with
      | false => exact sound
      | true =>
          refine ⟨sound.made, fun sock member => ?_, sound.closed, sound.isOpen, fun task beyond => ?_⟩
          · exact (List.mem_append.mp member).elim (sound.accepting sock) (sound.made sock)
          · refine sound.fresh task (Nat.le_trans ?_ beyond)
            exact List.length_append ▸ Nat.le_add_right _ _
  | stop =>
      cases stepped
      exact ⟨sound.made, sound.accepting, sound.closed, sound.isOpen, sound.fresh⟩
  | runStop => exact @sound_own α serving sound .runStop next trivial stepped
  | test task => exact @sound_own α serving sound (.test task) next trivial stepped
  | accept task client => exact @sound_own α serving sound (.accept task client) next trivial stepped

/-- **`start`** dooms no task exactly when it is settled. -/
theorem safe_start {serving : Serving α} (sound : Sound serving)
    (safe : ¬ ∃ task, serving.Doomed task) :
    (¬ ∃ task, Doomed { serving with server := serving.server.start } task) ↔
      serving.Settled .start := by
  unfold TcpServer.start Settled
  cases stop : serving.server.isStop with
  | false => exact iff_of_true safe nofun
  | true =>
      constructor
      · intro safe' _
        constructor
        · intro task sock live placed closed
          refine safe' ⟨task, rfl, live, sock, ?_, Or.inl closed⟩
          exact (List.getElem?_append_left (List.getElem?_eq_some_iff.mp placed).1).trans placed
        · by_contra both
          obtain ⟨pending, some'⟩ := not_or.mp both
          obtain ⟨sock, socks, listed⟩ := List.exists_cons_of_ne_nil some'
          refine safe' ⟨serving.server.accepting.length, rfl, ?_, sock, ?_, Or.inr ⟨?_, ?_⟩⟩
          · rw [sound.fresh _ (Nat.le_refl _)]
            exact nofun
          · show (serving.server.accepting ++ serving.server.socks)[_]? = some sock
            rw [listed, List.getElem?_append_right (Nat.le_refl _), Nat.sub_self]
            rfl
          · exact Nat.pos_of_ne_zero pending
          · exact List.mem_map_of_mem (listed ▸ List.mem_cons_self)
      · rintro settled ⟨task, _, live, sock, placed, condemned⟩
        obtain ⟨isOpen, nothing⟩ := settled rfl
        rcases condemned with closed | ⟨pending, member⟩
        · have split := List.getElem?_append.symm.trans placed
          by_cases early : task < serving.server.accepting.length
          · rw [if_pos early] at split
            exact isOpen task sock live split closed
          · rw [if_neg early] at split
            exact sound.isOpen sock (List.mem_of_getElem? split) closed
        · rcases nothing with none' | empty
          · exact Nat.ne_of_gt pending none'
          · have absent : sock.id ∉ serving.server.socks.map Socket.id := by
              rw [empty]
              exact nofun
            exact absent member

/-- One step from a state in which no task is doomed. -/
theorem safe_step {serving : Serving α} (sound : Sound serving)
    (safe : ¬ ∃ task, serving.Doomed task) {label : Label α} {next : Serving α × Event}
    (stepped : step serving label = some next) :
    (¬ ∃ task, next.1.Doomed task) ↔ serving.Settled label := by
  have kept (own : Own label) : ¬ ∃ task, next.1.Doomed task := by
    rintro ⟨task, doomed⟩
    exact safe ⟨task, doomed_of_own own stepped doomed⟩
  cases label with
  | bind addrs fails =>
      cases stepped
      refine iff_of_true ?_ trivial
      obtain ⟨isStop, accepting, _, socks⟩ := bind_server serving.server addrs fails
      rintro ⟨task, running, live, sock, placed, condemned⟩
      rw [accepting] at placed
      refine safe ⟨task, isStop ▸ running, live, sock, placed, condemned.imp_right ?_⟩
      rintro ⟨pending, member⟩
      obtain ⟨other, held, same⟩ := List.mem_map.mp member
      rcases socks other held with before | ⟨low, _⟩
      · exact ⟨pending, List.mem_map.mpr ⟨other, before, same⟩⟩
      · have early : sock.id < serving.server.made :=
          sound.accepting sock (List.mem_of_getElem? placed)
        omega
  | start =>
      cases stepped
      exact safe_start sound safe
  | stop =>
      cases stepped
      exact iff_of_true (fun ⟨_, running, _⟩ => nomatch running) trivial
  | runStop => exact iff_of_true (kept trivial) trivial
  | test task => exact iff_of_true (kept trivial) trivial
  | accept task client => exact iff_of_true (kept trivial) trivial

/-- **No state of a run is one from which a task can go round and round**, exactly when every `start`
that starts the server finds everything settled. -/
theorem never_spins_iff {labels : List (Label α)} {final : Serving α} {events : List Event}
    (executed : trace step new labels = some (final, events)) :
    (∀ position reached front, trace step new (labels.take position) = some (reached, front) →
      ¬ reached.Spins) ↔ Meets step Settled new labels := by
  simp only [spins_iff]
  refine @reached_iff _ _ _ step (fun serving => Sound serving ∧ ¬ ∃ task, serving.Doomed task)
    (fun serving => ¬ ∃ task, serving.Doomed task) Settled ?_ labels _ _ _ ?_ ?_ executed
  · intro serving label next ⟨sound, safe⟩ stepped
    exact ⟨safe_step sound safe stepped, fun later => ⟨sound_step sound stepped, later⟩⟩
  · exact fun ⟨_, running, _⟩ => nomatch running
  · exact ⟨sound_new, fun ⟨_, running, _⟩ => nomatch running⟩

/-- A server that is stopped, and started again before the task of the `stop` has run. -/
theorem never_spins_restart :
    ¬ ∀ position reached front, trace step (new : Serving Unit)
      ([.bind [((), .listening)] [], .start, .stop, .start].take position) = some (reached, front) →
        ¬ reached.Spins := by
  intro all
  have meets := (@never_spins_iff Unit [.bind [((), .listening)] [], .start, .stop, .start] _ _ rfl).mp all
  have settled := (((meets.2 _ rfl).2 _ rfl).2 _ rfl).1
  rcases (settled rfl).2 with nothing | empty
  · exact nomatch nothing
  · exact nomatch empty

end Serving

end Wyze.TcpServer
