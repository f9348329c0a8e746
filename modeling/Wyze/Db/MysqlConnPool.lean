/-
**`MysqlConnPool` under any interleaving of its threads.**

Callers take connections and give them back, a producer makes new ones while fewer than `m_minSize` are
queued, a recycler deletes those that were idle for too long. Every access to the queue is under
`m_mutexQ`, so a step is what a thread does from taking the lock to giving it back or to waiting. A
waiting thread may look again at any time: a condition variable wakes it also for no reason. `m_maxSize`
is read from the file and nowhere else.

* `Inv`: a connection is in one place.
* `move_spec`: only a connection that the producer makes is one more.
* `step_recycled`: the recycler leaves `m_minSize` connections in the queue.
* `bounded_iff`: the runs in which no more than `m_maxSize` connections live.
-/
import Mathlib.Data.List.Nodup
import Mathlib.Data.List.Perm.Basic
import Mathlib.Order.Nat
import Wyze.Lib.Run

namespace Wyze

/-- What the pool knows of a `MysqlConn`: which one it is, and `m_aliveTime` in milliseconds. -/
structure MysqlConn where
  id : Nat
  aliveTime : Nat
  deriving DecidableEq, Repr

namespace MysqlConn

/-- `refreshAliveTime`. -/
def refreshAliveTime (conn : MysqlConn) (now : Nat) : MysqlConn := { conn with aliveTime := now }

/-- `getAliveTime`; the steady clock does not go back. -/
def getAliveTime (conn : MysqlConn) (now : Nat) : Nat := now - conn.aliveTime

end MysqlConn

namespace MysqlConnPool

open Labelled

structure Config where
  minSize : Nat
  maxSize : Nat
  maxIdleTime : Nat

/-- The producer is about to take the lock, waits on `m_getconn`, or has returned. -/
inductive Producer where
  | ready
  | waiting
  | ended
  deriving DecidableEq, Repr

structure State where
  /-- `m_mysqlConnQueue`, the front first. -/
  queue : List MysqlConn
  /-- The connections that callers hold. -/
  out : List MysqlConn
  /-- Calls of `getConnection` that wait on `m_produce`. -/
  waiting : Nat
  producer : Producer
  /-- `recycleConnection` has not returned. -/
  recycling : Bool
  isexit : Bool
  nextId : Nat
  deriving DecidableEq, Repr

/-- The connections that live. -/
def State.live (pool : State) : Nat := pool.queue.length + pool.out.length

/-- `addConnection`: `connected` is what `connect` returns. -/
def addConnection (pool : State) (connected : Bool) (now : Nat) : State :=
  if connected then
    { pool with queue := pool.queue ++ [⟨pool.nextId, now⟩], nextId := pool.nextId + 1 }
  else pool

/-- The loop of the constructor: `connected` and `now` say how each attempt goes. -/
def fill (connected : Nat → Bool) (now : Nat → Nat) : Nat → State
  | 0 => ⟨[], [], 0, .ready, true, false, 0⟩
  | i + 1 => addConnection (fill connected now i) (connected i) (now i)

/-- `MysqlConnPool::MysqlConnPool`, when the file can be read. -/
def new (config : Config) (connected : Nat → Bool) (now : Nat → Nat) : State :=
  fill connected now config.minSize

/-- The end of `getConnection`, with a connection in the queue. -/
def take (pool : State) : Option State :=
  match pool.queue with
  | [] => none
  | conn :: queue => some { pool with queue := queue, out := conn :: pool.out }

/-- The producer behind its loop. -/
def produced (pool : State) (connected : Bool) (now : Nat) : State :=
  if pool.isexit then { pool with producer := .ended }
  else { addConnection pool connected now with producer := .ready }

/-- The inner loop of `recycleConnection`: the queue it leaves. `now` is the time at which it looks at a
connection. -/
def recycleLoop (config : Config) (isexit : Bool) (now : Nat → Nat) : List MysqlConn → List MysqlConn
  | [] => []
  | conn :: queue =>
    if queue.length + 1 > config.minSize then
      if conn.getAliveTime (now conn.id) ≥ config.maxIdleTime then
        if isexit then queue else recycleLoop config isexit now queue
      else conn :: queue
    else conn :: queue

inductive Label where
  | getConnection
  /-- A waiting call of `getConnection` has the lock again, notified or after `m_timeout`. -/
  | lookAgain
  /-- The last pointer to one of the connections in `out` goes: its deleter runs. -/
  | release (index : Nat) (now : Nat)
  | produceConnection (connected : Bool) (now : Nat)
  | recycleConnection (now : Nat → Nat)
  /-- The first statement of the destructor. -/
  | exit

/-- What is seen of a step. -/
structure Seen where
  before : State
  label : Label
  after : State

def move (config : Config) (pool : State) : Label → Option State
  | .getConnection => some ((take pool).getD { pool with waiting := pool.waiting + 1 })
  | .lookAgain =>
    if pool.waiting = 0 then none
    else some ((take { pool with waiting := pool.waiting - 1 }).getD pool)
  | .release index now =>
    pool.out[index]?.map fun conn =>
      { pool with
        queue := pool.queue ++ [conn.refreshAliveTime now]
        out := pool.out.eraseIdx index }
  | .produceConnection connected now =>
    match pool.producer with
    | .ended => none
    | .ready =>
      if pool.queue.length ≥ config.minSize ∧ pool.isexit = false then
        some { pool with producer := .waiting }
      else some (produced pool connected now)
    | .waiting =>
      -- the predicate of the wait does not ask for `isexit`
      if pool.queue.length < config.minSize then some (produced pool connected now) else some pool
  | .recycleConnection now =>
    if pool.recycling then
      some { pool with
        queue := recycleLoop config pool.isexit now pool.queue
        recycling := !pool.isexit }
    else none
  | .exit => some { pool with isexit := true }

/-- One step of one thread. -/
def step (config : Config) (pool : State) (label : Label) : Option (State × Seen) :=
  (move config pool label).map fun next => (next, ⟨pool, label, next⟩)

/-! ### Where the connections are -/

variable {config : Config} {pool next : State}

/-- **A connection is in one place**, and a new one is another one. -/
structure Inv (pool : State) : Prop where
  apart : ((pool.queue ++ pool.out).map MysqlConn.id).Nodup
  known : ∀ conn ∈ pool.queue ++ pool.out, conn.id < pool.nextId

/-- The invariant is about the connections, wherever they are. -/
theorem Inv.of_perm (inv : Inv pool) (same : next.nextId = pool.nextId)
    (ids : ((next.queue ++ next.out).map MysqlConn.id).Perm
      ((pool.queue ++ pool.out).map MysqlConn.id)) : Inv next where
  apart := ids.nodup_iff.mpr inv.apart
  known := by
    intro conn mem
    obtain ⟨other, inside, equal⟩ := List.mem_map.mp (ids.mem_iff.mp (List.mem_map_of_mem mem))
    rw [same, ← equal]
    exact inv.known other inside

theorem Inv.of_sublist (inv : Inv pool) (same : next.nextId = pool.nextId)
    (fewer : (next.queue ++ next.out).Sublist (pool.queue ++ pool.out)) : Inv next where
  apart := (fewer.map MysqlConn.id).nodup inv.apart
  known := fun conn mem => by
    rw [same]
    exact inv.known conn (fewer.subset mem)

theorem Inv.addConnection (inv : Inv pool) (connected : Bool) (now : Nat) :
    Inv (addConnection pool connected now) := by
  unfold MysqlConnPool.addConnection
  split
  · let conn : MysqlConn := ⟨pool.nextId, now⟩
    have moved : (pool.queue ++ [conn] ++ pool.out).Perm (conn :: (pool.queue ++ pool.out)) := by
      rw [List.append_assoc]
      exact List.perm_middle
    refine ⟨(moved.map MysqlConn.id).nodup_iff.mpr (List.nodup_cons.mpr ⟨?_, inv.apart⟩), ?_⟩
    · intro mem
      obtain ⟨conn, inside, equal⟩ := List.mem_map.mp mem
      exact absurd equal (inv.known conn inside).ne
    · intro conn mem
      rcases List.mem_cons.mp (moved.mem_iff.mp mem) with rfl | inside
      · exact Nat.lt_succ_self _
      · exact Nat.lt_succ_of_lt (inv.known conn inside)
  · exact inv

theorem live_addConnection (pool : State) (connected : Bool) (now : Nat) :
    (addConnection pool connected now).live = pool.live + if connected then 1 else 0 := by
  unfold addConnection State.live
  split
  · dsimp only
    rw [List.length_append, List.length_singleton]
    omega
  · rfl

theorem fill_spec (connected : Nat → Bool) (now : Nat → Nat) (count : Nat) :
    Inv (fill connected now count) ∧ (fill connected now count).live ≤ count := by
  induction count with
  | zero => exact ⟨⟨List.nodup_nil, fun _ mem => absurd mem List.not_mem_nil⟩, le_rfl⟩
  | succ count ih =>
    refine ⟨ih.1.addConnection _ _, ?_⟩
    rw [fill, live_addConnection]
    have := ih.2
    split <;> omega

/-- The recycler leaves the end of the queue, and `m_minSize` connections where there were as many. -/
theorem recycleLoop_spec (isexit : Bool) (now : Nat → Nat) (queue : List MysqlConn) :
    (recycleLoop config isexit now queue).Sublist queue ∧
      min config.minSize queue.length ≤ (recycleLoop config isexit now queue).length := by
  induction queue with
  | nil => exact ⟨List.Sublist.refl _, Nat.min_le_right _ _⟩
  | cons conn queue ih =>
    rw [recycleLoop, List.length_cons]
    split
    · rename_i more
      split
      · split
        · exact ⟨List.sublist_cons_self conn queue, by omega⟩
        · exact ⟨ih.1.cons conn, by omega⟩
      · exact ⟨List.Sublist.refl _, Nat.min_le_right _ _⟩
    · exact ⟨List.Sublist.refl _, Nat.min_le_right _ _⟩

/-- A connection is taken from the queue to a caller. -/
theorem take_spec (taken : take pool = some next) : next.nextId = pool.nextId ∧
    (next.queue ++ next.out).Perm (pool.queue ++ pool.out) := by
  unfold take at taken
  split at taken
  · cases taken
  · rename_i conn queue here
    cases taken
    rw [here]
    exact ⟨rfl, List.perm_middle⟩

theorem live_eq_length (pool : State) : pool.live = (pool.queue ++ pool.out).length :=
  List.length_append.symm

/-! ### What a step does -/

/-- **The producer makes a connection.** -/
def Adds (config : Config) (pool : State) : Label → Prop
  | .produceConnection connected _ =>
    connected = true ∧ pool.producer ≠ .ended ∧ pool.queue.length < config.minSize ∧
      pool.isexit = false
  | _ => False

instance (config : Config) (pool : State) : ∀ label, Decidable (Adds config pool label)
  | .produceConnection connected _ =>
    inferInstanceAs (Decidable (connected = true ∧ pool.producer ≠ .ended ∧
      pool.queue.length < config.minSize ∧ pool.isexit = false))
  | .getConnection | .lookAgain | .release _ _ | .recycleConnection _ | .exit =>
    inferInstanceAs (Decidable False)

/-- What a step says about the connections. -/
structure Moves (config : Config) (pool : State) (label : Label) (next : State) : Prop where
  inv : Inv pool → Inv next
  adds : Adds config pool label → next.live = pool.live + 1
  others : ¬ Adds config pool label → next.live ≤ pool.live

/-- A step that makes no connection and deletes none. -/
theorem Moves.of_perm {label : Label} (none_made : ¬ Adds config pool label)
    (same : next.nextId = pool.nextId)
    (ids : ((next.queue ++ next.out).map MysqlConn.id).Perm
      ((pool.queue ++ pool.out).map MysqlConn.id)) : Moves config pool label next where
  inv := fun inv => inv.of_perm same ids
  adds := fun made => absurd made none_made
  others := fun _ => by
    have := ids.length_eq
    rw [List.length_map, List.length_map, ← live_eq_length, ← live_eq_length] at this
    exact this.le

theorem Moves.of_same {label : Label} (none_made : ¬ Adds config pool label)
    (same : next.nextId = pool.nextId) (queue : next.queue = pool.queue) (out : next.out = pool.out) :
    Moves config pool label next :=
  Moves.of_perm none_made same (by rw [queue, out])

/-- The producer behind its loop, with too few connections in the queue or at the end. -/
theorem moves_produced {connected : Bool} {now : Nat} (runs : pool.producer ≠ .ended)
    (few : pool.isexit = false → pool.queue.length < config.minSize) :
    Moves config pool (.produceConnection connected now) (produced pool connected now) := by
  unfold produced
  by_cases ends : pool.isexit = true
  · rw [if_pos ends]
    refine Moves.of_same ?_ rfl rfl rfl
    rintro ⟨_, _, _, goesOn⟩
    rw [ends] at goesOn
    cases goesOn
  · rw [if_neg ends]
    have goesOn : pool.isexit = false := Bool.eq_false_iff.mpr ends
    have total : State.live { addConnection pool connected now with producer := .ready } =
        pool.live + if connected then 1 else 0 := live_addConnection pool connected now
    refine ⟨fun inv => ?_, fun made => ?_, fun none_made => ?_⟩
    · have kept := inv.addConnection connected now
      exact ⟨kept.apart, kept.known⟩
    · rw [total, if_pos made.1]
    · have failed : ¬ connected = true := fun made =>
        none_made ⟨made, runs, few goesOn, goesOn⟩
      rw [total, if_neg failed]
      exact le_rfl

/-- A call takes a connection, or waits; it counts itself among the waiting calls or does not. -/
theorem moves_take {label : Label} (none_made : ¬ Adds config pool label) (taking waits : Nat) :
    Moves config pool label
      ((take { pool with waiting := taking }).getD { pool with waiting := waits }) := by
  rcases taken : take { pool with waiting := taking } with _ | after
  · exact Moves.of_same none_made rfl rfl rfl
  · obtain ⟨same, perm⟩ := take_spec taken
    exact Moves.of_perm none_made same (perm.map MysqlConn.id)

/-- A connection comes back. -/
theorem moves_release {index now : Nat} (moved : move config pool (.release index now) = some next) :
    Moves config pool (.release index now) next := by
  obtain ⟨conn, here, rfl⟩ := Option.map_eq_some_iff.mp moved
  obtain ⟨inside, rfl⟩ := List.getElem?_eq_some_iff.mp here
  refine Moves.of_perm not_false rfl ?_
  have back : (pool.out[index] :: pool.out.eraseIdx index).Perm pool.out :=
    List.getElem_cons_eraseIdx_perm inside
  have ids := (back.map MysqlConn.id).append_left (pool.queue.map MysqlConn.id)
  simp only [List.map_append, List.append_assoc, List.map_cons, List.singleton_append,
    MysqlConn.refreshAliveTime] at ids ⊢
  exact ids

/-- The producer takes the lock, or has it again. -/
theorem moves_produceConnection {connected : Bool} {now : Nat}
    (moved : move config pool (.produceConnection connected now) = some next) :
    Moves config pool (.produceConnection connected now) next := by
  simp only [move] at moved
  split at moved
  · cases moved
  · rename_i ready
    split at moved
    · rename_i enough
      cases moved
      exact Moves.of_same (fun made => absurd made.2.2.1 (not_lt.mpr enough.1)) rfl rfl rfl
    · rename_i short
      cases moved
      refine moves_produced (by rw [ready]; decide) fun goesOn => ?_
      exact not_le.mp fun enough => short ⟨enough, goesOn⟩
  · rename_i waiting
    split at moved
    · rename_i short
      cases moved
      exact moves_produced (by rw [waiting]; decide) fun _ => short
    · rename_i enough
      cases moved
      exact Moves.of_same (fun made => absurd made.2.2.1 enough) rfl rfl rfl

/-- The recycler deletes connections. -/
theorem moves_recycleConnection {now : Nat → Nat}
    (moved : move config pool (.recycleConnection now) = some next) :
    Moves config pool (.recycleConnection now) next := by
  simp only [move] at moved
  split at moved
  · cases moved
    have fewer := (@recycleLoop_spec config pool.isexit now pool.queue).1.append_right pool.out
    refine ⟨fun inv => inv.of_sublist rfl fewer, False.elim, fun _ => ?_⟩
    rw [live_eq_length, live_eq_length]
    exact fewer.length_le
  · cases moved

/-- **What a step does to the connections.** -/
theorem move_spec {label : Label} (moved : move config pool label = some next) :
    Moves config pool label next := by
  cases label with
  | getConnection =>
    cases moved
    refine moves_take ?_ pool.waiting (pool.waiting + 1)
    exact not_false
  | lookAgain =>
    simp only [move] at moved
    split at moved
    · cases moved
    · cases moved
      refine moves_take ?_ (pool.waiting - 1) pool.waiting
      exact not_false
  | release => exact moves_release moved
  | produceConnection => exact moves_produceConnection moved
  | recycleConnection => exact moves_recycleConnection moved
  | exit =>
    cases moved
    exact Moves.of_same not_false rfl rfl rfl

/-! ### Runs -/

/-- No connection is queued and handed out at once, or twice. -/
def Apart (pool : State) : Prop := ((pool.queue ++ pool.out).map MysqlConn.id).Nodup

/-- The recycler does not take the queue below `m_minSize`. -/
def Seen.Recycled (config : Config) (seen : Seen) : Prop :=
  ∀ now, seen.label = .recycleConnection now →
    min config.minSize seen.before.queue.length ≤ seen.after.queue.length

/-- **A step as it should be**: no more than `m_maxSize` connections live behind it, each is in one
place, and the recycler leaves enough. -/
structure Seen.Lawful (config : Config) (seen : Seen) : Prop where
  bounded : seen.after.live ≤ config.maxSize
  apart : Apart seen.after
  recycled : seen.Recycled config

/-- **There is room**: where the producer makes a connection fewer than `m_maxSize` live. -/
def Room (config : Config) (pool : State) (label : Label) : Prop :=
  Adds config pool label → pool.live < config.maxSize

instance (config : Config) (pool : State) (label : Label) : Decidable (Room config pool label) :=
  inferInstanceAs (Decidable (Adds config pool label → pool.live < config.maxSize))

theorem step_recycled {label : Label} {seen : Seen}
    (stepped : step config pool label = some (next, seen)) : seen.Recycled config := by
  obtain ⟨_, moved, rest⟩ := Option.map_eq_some_iff.mp stepped
  cases rest
  rintro now rfl
  simp only [move] at moved
  split at moved
  · cases moved
    exact (recycleLoop_spec pool.isexit now pool.queue).2
  · cases moved

/-- **One step** from a state with no more than `m_maxSize` connections is lawful exactly when there is
room. -/
theorem lawful_iff {label : Label} {seen : Seen} (inv : Inv pool) (bounded : pool.live ≤ config.maxSize)
    (stepped : step config pool label = some (next, seen)) :
    (seen.Lawful config ↔ Room config pool label) ∧
      (seen.Lawful config → Inv next ∧ next.live ≤ config.maxSize) := by
  have recycled := step_recycled stepped
  obtain ⟨_, moved, rest⟩ := Option.map_eq_some_iff.mp stepped
  cases rest
  have moves := move_spec moved
  refine ⟨⟨fun lawful adds => ?_, fun room => ⟨?_, (moves.inv inv).apart, recycled⟩⟩,
    fun lawful => ⟨moves.inv inv, lawful.bounded⟩⟩
  · have more := moves.adds adds
    have within : next.live ≤ config.maxSize := lawful.bounded
    omega
  · show next.live ≤ config.maxSize
    by_cases adds : Adds config pool label
    · have more := moves.adds adds
      have fewer := room adds
      omega
    · exact (moves.others adds).trans bounded

/-- With no more than `m_maxSize - m_minSize` connections handed out there is room. -/
theorem room_of_out_le {label : Label} (ordered : config.minSize ≤ config.maxSize)
    (few : pool.out.length ≤ config.maxSize - config.minSize) : Room config pool label := by
  intro adds
  cases label with
  | produceConnection connected now =>
    have short := adds.2.2.1
    unfold State.live
    omega
  | _ => exact False.elim adds

/-- **In every run** each connection is in one place and the recycler leaves `m_minSize` connections. -/
theorem run_apart (connected : Nat → Bool) (now : Nat → Nat) {labels : List Label} {final : State}
    {seen : List Seen} (executed : trace (step config) (new config connected now) labels =
      some (final, seen)) : ∀ one ∈ seen, Apart one.after ∧ one.Recycled config := by
  have keeps (pool : State) (label : Label) (after : State × Seen) (inv : Inv pool)
      (stepped : step config pool label = some after) :
      Inv after.1 ∧ Apart after.2.after ∧ after.2.Recycled config := by
    have recycled := step_recycled stepped
    obtain ⟨_, moved, rest⟩ := Option.map_eq_some_iff.mp stepped
    cases rest
    exact ⟨(move_spec moved).inv inv, ((move_spec moved).inv inv).apart, recycled⟩
  have all : Inv final ∧ ∀ one ∈ seen, Apart one.after ∧ one.Recycled config :=
    trace_shows keeps labels (fill_spec connected now config.minSize).1 executed
  exact all.2

/-- **The pool is bounded** in the runs in which a connection is made only where there is room: then and
only then every step is lawful. -/
theorem bounded_iff (config : Config) (ordered : config.minSize ≤ config.maxSize)
    (connected : Nat → Bool) (now : Nat → Nat) {labels : List Label} {final : State} {seen : List Seen}
    (executed : trace (step config) (new config connected now) labels = some (final, seen)) :
    (new config connected now).live ≤ config.maxSize ∧ Apart (new config connected now) ∧
      ((∀ one ∈ seen, one.Lawful config) ↔
        Meets (step config) (Room config) (new config connected now) labels) := by
  obtain ⟨inv, filled⟩ := fill_spec connected now config.minSize
  have bounded : (new config connected now).live ≤ config.maxSize := filled.trans ordered
  have keeps (pool : State) (label : Label) (after : State × Seen)
      (before : Inv pool ∧ pool.live ≤ config.maxSize)
      (stepped : step config pool label = some after) :
      (after.2.Lawful config ↔ Room config pool label) ∧
        (after.2.Lawful config → Inv after.1 ∧ after.1.live ≤ config.maxSize) :=
    lawful_iff before.1 before.2 stepped
  exact ⟨bounded, inv.apart, trace_shown_iff keeps labels ⟨inv, bounded⟩ executed⟩

/-- Two connections at most: one is taken, another one is made, the first comes back, and one of the two
is recycled. -/
theorem bounded_two :
    ∃ final seen, trace (step ⟨1, 2, 1000⟩) (new ⟨1, 2, 1000⟩ (fun _ => true) fun _ => 0)
        [.getConnection, .produceConnection true 3, .release 0 9, .recycleConnection fun _ => 2000] =
          some (final, seen) ∧
      (∀ one ∈ seen, one.Lawful ⟨1, 2, 1000⟩) ∧ final.queue = [⟨0, 9⟩] := by
  have executed : trace (step ⟨1, 2, 1000⟩) (new ⟨1, 2, 1000⟩ (fun _ => true) fun _ => 0)
      [.getConnection, .produceConnection true 3, .release 0 9, .recycleConnection fun _ => 2000] =
        some (_, _) := rfl
  exact ⟨_, _, executed, (bounded_iff ⟨1, 2, 1000⟩ (by decide) (fun _ => true) (fun _ => 0)
    executed).2.2.mpr (by decide), rfl⟩

/-- **One connection too many**: `m_minSize` and `m_maxSize` are 1, the connection is handed out, and the
producer makes another one. -/
theorem one_too_many :
    ∃ final seen, trace (step ⟨1, 1, 1000⟩) (new ⟨1, 1, 1000⟩ (fun _ => true) fun _ => 0)
        [.getConnection, .produceConnection true 3] = some (final, seen) ∧
      final.live = 2 ∧ ¬ ∀ one ∈ seen, one.Lawful ⟨1, 1, 1000⟩ := by
  refine ⟨_, _, rfl, rfl, fun all => ?_⟩
  have bounded := (all _ (List.mem_cons_of_mem _ List.mem_cons_self)).bounded
  exact absurd bounded (by decide)

end MysqlConnPool

end Wyze
