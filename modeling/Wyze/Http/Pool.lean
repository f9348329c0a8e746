/-
**`HttpConnectionPool` under any interleaving of its calls.**

`getConnection` takes a connection under the lock or makes a new one without it; `ReleasePtr` looks at
the counter without the lock and takes it for the push only. Each of these pieces is a step, and so is
each change of the counter, so a run is any interleaving of any number of calls. What the source reads
from elsewhere (the state of a socket, the clock, whether a host resolves and a connect succeeds) is
part of the label.

`Valid` is the invariant: the counter is behind the connections only while a call is in progress, and
a connection on its way to the idle list already has its place there. `pool_sound` says what every run
keeps.
-/
import Mathlib.Data.List.Nodup
import Wyze.Lib.Run
import Wyze.Lib.Words

namespace Wyze.Http.HttpConnectionPool

open Labelled

/-- What the pool knows of an `HttpConnection`: which one it is, `m_createTimes` and `m_request`. -/
structure Conn where
  id : Nat
  createTimes : Nat
  request : Nat
  deriving DecidableEq, Repr

structure Config where
  maxSize : Nat
  maxAliveTime : Nat
  maxRequest : Nat

/-- The pool and the calls in progress. `total` counts in 32 bits; every connection it counts takes
memory, so it does not come near the end of them. -/
structure State where
  /-- `m_conns`. -/
  conns : List Conn
  /-- `m_total`. -/
  total : Nat
  /-- The call of `getConnection` that holds `m_mutex`: how many connections it gave up, `raw_ptr`. -/
  locked : Option (Nat × Option Conn)
  /-- The connections that users hold. -/
  out : List Conn
  /-- Calls of `getConnection` behind the lock without a connection. -/
  connecting : Nat
  /-- Connections made and not counted yet. -/
  created : List Conn
  /-- Calls of `ReleasePtr` behind `delete ptr`. -/
  deleting : Nat
  /-- Connections of calls of `ReleasePtr` in front of the lock. -/
  pushing : List Conn
  nextId : Nat
  deriving DecidableEq, Repr

/-- `HttpConnectionPool::HttpConnectionPool`. -/
def new : State := ⟨[], 0, none, [], 0, [], 0, [], 0⟩

/-- No call is in progress. -/
def Quiet (pool : State) : Prop :=
  pool.locked = none ∧ pool.connecting = 0 ∧ pool.created = [] ∧ pool.deleting = 0 ∧
    pool.pushing = []

/-- What a step does that a caller can see. -/
inductive Output where
  /-- `getConnection` returns the connection. -/
  | handed (id : Nat)
  /-- `getConnection` returns `nullptr`. -/
  | null
  | none
  deriving DecidableEq, Repr

inductive Label where
  /-- The loop of `getConnection` under the lock: for each connection, whether it is connected and
  what `GetCurrentMS` says when it is looked at. -/
  | get (isConnected : Nat → Bool) (now : Nat → Nat)
  /-- `m_total -= invalid_conn.size()`, the end of the lock, and the return when there is a `raw_ptr`. -/
  | discount
  /-- The address is not found or the connect fails. -/
  | connectFails
  /-- `new HttpConnection(sock)`. -/
  | create (now : Nat)
  /-- `++m_total`, and the connection is returned. -/
  | count (id : Nat)
  /-- `ReleasePtr` up to the end of the test. -/
  | release (id : Nat) (isConnected : Bool) (now : Nat)
  /-- `--m_total`. -/
  | uncount
  /-- `m_conns.push_back(ptr)` under the lock. -/
  | push (id : Nat)

/-- `(m_createTimes + m_maxAliveTime) <= GetCurrentMS()`, on `uint64_t`. -/
def expired (config : Config) (conn : Conn) (now : Nat) : Bool :=
  add64 conn.createTimes config.maxAliveTime ≤ now

/-- The loop of `getConnection`: the number of connections it gives up, `raw_ptr` and what stays. -/
def scan (config : Config) (isConnected : Nat → Bool) (now : Nat → Nat) :
    List Conn → Nat × Option Conn × List Conn
  | [] => (0, none, [])
  | conn :: conns =>
    if !isConnected conn.id || expired config conn (now conn.id) then
      let (invalid, found, rest) := scan config isConnected now conns
      (invalid + 1, found, rest)
    else (0, some conn, conns)

/-- Find a connection by what it is, and take it out of a list. -/
def takeOut (id : Nat) (list : List Conn) : Option (Conn × List Conn) :=
  (list.find? (·.id = id)).map fun conn => (conn, list.erase conn)

def step (config : Config) (pool : State) : Label → Option (State × Output)
  | .get isConnected now =>
    if pool.locked.isSome then none
    else
      let (invalid, found, rest) := scan config isConnected now pool.conns
      some ({ pool with conns := rest, locked := some (invalid, found) }, .none)
  | .discount =>
    pool.locked.map fun (invalid, found) =>
      let pool := { pool with locked := none, total := pool.total - invalid }
      match found with
      | some conn => ({ pool with out := conn :: pool.out }, .handed conn.id)
      | none => ({ pool with connecting := pool.connecting + 1 }, .none)
  | .connectFails =>
    if pool.connecting = 0 then none
    else some ({ pool with connecting := pool.connecting - 1 }, .null)
  | .create now =>
    if pool.connecting = 0 then none
    else some ({ pool with
      connecting := pool.connecting - 1
      created := ⟨pool.nextId, now, 0⟩ :: pool.created
      nextId := pool.nextId + 1 }, .none)
  | .count id =>
    (takeOut id pool.created).map fun (conn, created) =>
      ({ pool with created := created, total := pool.total + 1, out := conn :: pool.out },
        .handed conn.id)
  | .release id isConnected now =>
    (takeOut id pool.out).map fun (conn, out) =>
      let conn := { conn with request := conn.request + 1 }
      if !isConnected || pool.total > config.maxSize || expired config conn now
          || conn.request ≥ config.maxRequest then
        ({ pool with out := out, deleting := pool.deleting + 1 }, .none)
      else ({ pool with out := out, pushing := conn :: pool.pushing }, .none)
  | .uncount =>
    if pool.deleting = 0 then none
    else some ({ pool with deleting := pool.deleting - 1, total := pool.total - 1 }, .none)
  | .push id =>
    if pool.locked.isSome then none
    else (takeOut id pool.pushing).map fun (conn, pushing) =>
      ({ pool with pushing := pushing, conns := pool.conns ++ [conn] }, .none)

/-! ### The lists -/

/-- How often a list holds a connection. -/
def holding (id : Nat) (list : List Conn) : Nat := list.countP (·.id = id)

@[simp]
theorem holding_nil (id : Nat) : holding id [] = 0 := rfl

@[simp]
theorem holding_cons (id : Nat) (conn : Conn) (list : List Conn) :
    holding id (conn :: list) = holding id list + if conn.id = id then 1 else 0 := by
  unfold holding
  simp only [List.countP_cons, decide_eq_true_eq]

@[simp]
theorem holding_append (id : Nat) (first second : List Conn) :
    holding id (first ++ second) = holding id first + holding id second := by
  unfold holding
  exact List.countP_append

theorem holding_pos {conn : Conn} {list : List Conn} (mem : conn ∈ list) :
    1 ≤ holding conn.id list := by
  unfold holding
  exact List.countP_pos_iff.mpr ⟨conn, mem, decide_eq_true rfl⟩

/-- Taking a connection out leaves the others. -/
theorem takeOut_perm {id : Nat} {list rest : List Conn} {conn : Conn}
    (taken : takeOut id list = some (conn, rest)) : conn.id = id ∧ list.Perm (conn :: rest) := by
  unfold takeOut at taken
  rw [Option.map_eq_some_iff] at taken
  obtain ⟨found, search, same⟩ := taken
  cases same
  have isIt := List.find?_some search
  exact ⟨of_decide_eq_true isIt, List.perm_cons_erase (List.mem_of_find?_eq_some search)⟩

/-- The loop gives up the connections in front of the one it takes. -/
theorem scan_split (config : Config) (isConnected : Nat → Bool) (now : Nat → Nat)
    (conns : List Conn) :
    ∃ invalid : List Conn, (scan config isConnected now conns).1 = invalid.length ∧
      conns = invalid ++ (scan config isConnected now conns).2.1.toList ++
        (scan config isConnected now conns).2.2 := by
  induction conns with
  | nil => exact ⟨[], rfl, rfl⟩
  | cons conn conns ih =>
    obtain ⟨invalid, count, split⟩ := ih
    rw [scan]
    split
    · refine ⟨conn :: invalid, ?_, ?_⟩
      · rw [List.length_cons, ← count]
      · rw [List.cons_append, List.cons_append, ← split]
    · exact ⟨[], rfl, rfl⟩

theorem holding_takeOut {id : Nat} {list rest : List Conn} {conn : Conn}
    (taken : takeOut id list = some (conn, rest)) (other : Nat) :
    holding other list = holding other (conn :: rest) := by
  unfold holding
  exact (takeOut_perm taken).2.countP_eq _

theorem length_takeOut {id : Nat} {list rest : List Conn} {conn : Conn}
    (taken : takeOut id list = some (conn, rest)) : list.length = rest.length + 1 := by
  rw [(takeOut_perm taken).2.length_eq, List.length_cons]

theorem mem_takeOut {id : Nat} {list rest : List Conn} {conn other : Conn}
    (taken : takeOut id list = some (conn, rest)) : other ∈ list ↔ other = conn ∨ other ∈ rest := by
  rw [(takeOut_perm taken).2.mem_iff, List.mem_cons]

/-! ### The invariant -/

/-- How often a connection was handed out. -/
def timesGiven (id : Nat) (outputs : List Output) : Nat := outputs.count (.handed id)

@[simp]
theorem timesGiven_append (id : Nat) (outputs : List Output) (output : Output) :
    timesGiven id (outputs ++ [output]) =
      timesGiven id outputs + if output = .handed id then 1 else 0 := by
  unfold timesGiven
  rw [List.count_append, List.count_singleton]
  simp only [beq_iff_eq]

/-- The connections that a call of `getConnection` has taken off the list: how many it gave up and the
one it takes. -/
def lost (locked : Option (Nat × Option Conn)) : Nat := (locked.map Prod.fst).getD 0

def raw (locked : Option (Nat × Option Conn)) : List Conn := (locked.bind Prod.snd).toList

/-- **Where the connections are**, and what the counter says about them. -/
structure Placed (config : Config) (pool : State) : Prop where
  /-- The counter leaves out the connections not counted yet and keeps those not uncounted yet. -/
  counted : pool.total =
    pool.conns.length + (lost pool.locked + (raw pool.locked).length) + pool.out.length +
      pool.pushing.length + pool.deleting
  /-- A release behind its test has a place in the idle list. -/
  bounded : pool.conns.length + pool.pushing.length ≤ config.maxSize
  /-- A connection is in one place. -/
  distinct : ∀ id, holding id pool.conns + holding id (raw pool.locked) + holding id pool.out +
    holding id pool.created + holding id pool.pushing ≤ 1
  known : ∀ id, pool.nextId ≤ id → holding id pool.conns + holding id (raw pool.locked) +
    holding id pool.out + holding id pool.created + holding id pool.pushing = 0

/-- **How often the connections were handed out**, by what `m_request` says. -/
structure Given (config : Config) (pool : State) (outputs : List Output) : Prop where
  idle : ∀ conn, conn ∈ pool.conns ∨ conn ∈ raw pool.locked ∨ conn ∈ pool.pushing →
    timesGiven conn.id outputs = conn.request ∧ conn.request < config.maxRequest
  out : ∀ conn ∈ pool.out, timesGiven conn.id outputs = conn.request + 1
  created : ∀ conn ∈ pool.created, timesGiven conn.id outputs = conn.request ∧ conn.request = 0
  known : ∀ id, pool.nextId ≤ id → timesGiven id outputs = 0
  limit : ∀ id, timesGiven id outputs ≤ max 1 config.maxRequest

/-- **The invariant** of the pool, its calls in progress and what it has handed out. -/
structure Valid (config : Config) (pool : State) (outputs : List Output) : Prop where
  placed : Placed config pool
  given : Given config pool outputs

theorem valid_new (config : Config) : Valid config new [] where
  placed := ⟨rfl, Nat.zero_le _, fun _ => Nat.zero_le _, fun _ _ => rfl⟩
  given := ⟨nofun, nofun, nofun, fun _ _ => rfl, fun _ => Nat.zero_le _⟩

variable {config : Config} {pool : State} {outputs : List Output}

/-- In how many places a connection is. -/
def places (id : Nat) (pool : State) : Nat :=
  holding id pool.conns + holding id (raw pool.locked) + holding id pool.out +
    holding id pool.created + holding id pool.pushing

/-- **A step that makes no connection** leaves each of them in no more places than it was. -/
theorem Placed.moved {next : State} (placed : Placed config pool) (ids : next.nextId = pool.nextId)
    (fewer : ∀ id, places id next ≤ places id pool)
    (counted : next.total =
      next.conns.length + (lost next.locked + (raw next.locked).length) + next.out.length +
        next.pushing.length + next.deleting)
    (bounded : next.conns.length + next.pushing.length ≤ config.maxSize) : Placed config next where
  counted := counted
  bounded := bounded
  distinct := fun id => Nat.le_trans (fewer id) (placed.distinct id)
  known := fun id new =>
    Nat.le_zero.mp (Nat.le_trans (fewer id) (Nat.le_of_eq (placed.known id (ids ▸ new))))

/-- A step that hands nothing out leaves the counts. -/
theorem Given.quiet {output : Output} (known : Given config pool outputs)
    (quiet : ∀ id, output ≠ .handed id) : Given config pool (outputs ++ [output]) := by
  have same (id : Nat) : timesGiven id (outputs ++ [output]) =
      timesGiven id outputs := by
    rw [timesGiven_append, if_neg (quiet id), Nat.add_zero]
  constructor
  · simpa only [same] using known.idle
  · simpa only [same] using known.out
  · simpa only [same] using known.created
  · simpa only [same] using known.known
  · simpa only [same] using known.limit

/-- **A connection is handed out** that was handed out `m_request` times before. -/
theorem Given.handed {next : State} {conn : Conn} (known : Given config pool outputs)
    (placed : Placed config next) (outEq : next.out = conn :: pool.out)
    (before : timesGiven conn.id outputs = conn.request)
    (again : conn.request < config.maxRequest ∨ conn.request = 0)
    (idle : ∀ other, other ∈ next.conns ∨ other ∈ raw next.locked ∨ other ∈ next.pushing →
      other ∈ pool.conns ∨ other ∈ raw pool.locked ∨ other ∈ pool.pushing)
    (created : ∀ other ∈ next.created, other ∈ pool.created)
    (ids : next.nextId = pool.nextId) :
    Given config next (outputs ++ [.handed conn.id]) := by
  have single := placed.distinct conn.id
  rw [outEq, holding_cons, if_pos rfl] at single
  -- the connection is in the hands of its user and nowhere else
  have others {list : List Conn} (absent : holding conn.id list = 0) {other : Conn}
      (mem : other ∈ list) : timesGiven other.id (outputs ++ [.handed conn.id]) =
        timesGiven other.id outputs := by
    have different : conn.id ≠ other.id := by
      intro same
      have := holding_pos mem
      rw [← same] at this
      omega
    rw [timesGiven_append, if_neg fun same => different (Output.handed.inj same), Nat.add_zero]
  have here : timesGiven conn.id (outputs ++ [.handed conn.id]) = conn.request + 1 := by
    rw [timesGiven_append, if_pos rfl, before]
  refine ⟨?_, ?_, ?_, ?_, ?_⟩
  · intro other mem
    have same : timesGiven other.id (outputs ++ [.handed conn.id]) = timesGiven other.id outputs :=
      mem.elim (others (by omega)) (Or.elim · (others (by omega)) (others (by omega)))
    rw [same]
    exact known.idle other (idle other mem)
  · intro other mem
    rw [outEq, List.mem_cons] at mem
    rcases mem with rfl | mem
    · exact here
    · rw [others (by omega) mem]
      exact known.out other mem
  · intro other mem
    rw [others (by omega) mem]
    exact known.created other (created other mem)
  · intro id new
    have absent := placed.known id new
    rw [outEq, holding_cons] at absent
    have different : conn.id ≠ id := by
      intro same
      rw [if_pos same] at absent
      omega
    rw [timesGiven_append, if_neg fun same => different (Output.handed.inj same)]
    exact known.known id (ids ▸ new)
  · intro id
    by_cases same : conn.id = id
    · rw [← same, here]
      omega
    · rw [timesGiven_append, if_neg fun equal => same (Output.handed.inj equal)]
      exact known.limit id

/-! ### One lemma per step -/

theorem get_valid (valid : Valid config pool outputs) (isConnected : Nat → Bool) (now : Nat → Nat)
    {next : State × Output} (stepped : step config pool (.get isConnected now) = some next) :
    Valid config next.1 (outputs ++ [next.2]) := by
  obtain ⟨invalid, count, split⟩ := scan_split config isConnected now pool.conns
  rcases result : scan config isConnected now pool.conns with ⟨given_up, found, rest⟩
  rw [result] at count split
  dsimp only at count split
  rw [step, result] at stepped
  split at stepped
  · cases stepped
  rename_i free
  cases stepped
  have unlocked : pool.locked = none := by simpa using free
  have counted := valid.placed.counted
  have bounded := valid.placed.bounded
  have lengths := congrArg List.length split
  have holds (id : Nat) := congrArg (holding id) split
  simp only [List.length_append, holding_append] at lengths holds
  have noneLost : lost pool.locked = 0 := by rw [lost, unlocked]; rfl
  have noneRaw : raw pool.locked = [] := by rw [raw, unlocked]; rfl
  rw [noneLost, noneRaw, List.length_nil] at counted
  refine ⟨valid.placed.moved rfl (fun id => ?_) ?_ ?_, Given.quiet ?_ nofun⟩
  · have := holds id
    rw [places, places, noneRaw, holding_nil]
    show holding id rest + holding id found.toList + holding id pool.out + holding id pool.created +
      holding id pool.pushing ≤ _
    omega
  · show pool.total = rest.length + (given_up + found.toList.length) + pool.out.length +
      pool.pushing.length + pool.deleting
    omega
  · dsimp only
    omega
  · refine ⟨?_, valid.given.out, valid.given.created, valid.given.known, valid.given.limit⟩
    intro conn mem
    refine valid.given.idle conn ?_
    rw [split]
    rcases mem with mem | mem | mem
    · exact Or.inl (List.mem_append_right _ mem)
    · exact Or.inl (List.mem_append_left _ (List.mem_append_right _ mem))
    · exact Or.inr (Or.inr mem)

theorem discount_valid (valid : Valid config pool outputs) {next : State × Output}
    (stepped : step config pool .discount = some next) :
    Valid config next.1 (outputs ++ [next.2]) := by
  rw [step, Option.map_eq_some_iff] at stepped
  obtain ⟨⟨given_up, found⟩, locked, stepped⟩ := stepped
  have counted := valid.placed.counted
  have bounded := valid.placed.bounded
  have lostEq : lost pool.locked = given_up := by rw [lost, locked]; rfl
  have rawEq : raw pool.locked = found.toList := by rw [raw, locked]; rfl
  rw [lostEq, rawEq] at counted
  cases found with
  | none =>
    cases stepped
    refine ⟨valid.placed.moved rfl (fun id => ?_) ?_ bounded, Given.quiet ?_ nofun⟩
    · rw [places, places, rawEq]
      exact Nat.le_refl _
    · show pool.total - given_up = pool.conns.length + (0 + 0) + pool.out.length +
        pool.pushing.length + pool.deleting
      rw [Option.toList_none, List.length_nil] at counted
      omega
    · refine ⟨?_, valid.given.out, valid.given.created, valid.given.known, valid.given.limit⟩
      intro conn mem
      refine valid.given.idle conn (mem.imp_right fun mem => Or.inr ?_)
      exact mem.resolve_left (List.not_mem_nil)
  | some conn =>
    cases stepped
    obtain ⟨before, again⟩ := valid.given.idle conn (Or.inr (Or.inl (by
      rw [rawEq]
      exact List.mem_cons_self)))
    have placed : Placed config { pool with
        locked := none, total := pool.total - given_up, out := conn :: pool.out } := by
      refine valid.placed.moved rfl (fun id => ?_) ?_ bounded
      · rw [places, places, rawEq]
        show holding id pool.conns + 0 + holding id (conn :: pool.out) + holding id pool.created +
          holding id pool.pushing ≤ _
        rw [Option.toList_some, holding_cons, holding_cons, holding_nil]
        omega
      · show pool.total - given_up = pool.conns.length + (0 + 0) + (pool.out.length + 1) +
          pool.pushing.length + pool.deleting
        rw [Option.toList_some, List.length_singleton] at counted
        omega
    refine ⟨placed, valid.given.handed placed rfl before (Or.inl again) ?_ (fun _ mem => mem) rfl⟩
    intro other mem
    exact mem.imp_right fun mem => Or.inr (mem.resolve_left List.not_mem_nil)

theorem count_valid (valid : Valid config pool outputs) (id : Nat) {next : State × Output}
    (stepped : step config pool (.count id) = some next) :
    Valid config next.1 (outputs ++ [next.2]) := by
  simp only [step, Option.map_eq_some_iff] at stepped
  obtain ⟨⟨conn, created⟩, taken, rfl⟩ := stepped
  have counted := valid.placed.counted
  have holds (other : Nat) := holding_takeOut taken other
  simp only [holding_cons] at holds
  obtain ⟨before, zero⟩ := valid.given.created conn ((mem_takeOut taken).mpr (Or.inl rfl))
  have placed : Placed config { pool with
      created := created, total := pool.total + 1, out := conn :: pool.out } := by
    refine valid.placed.moved rfl (fun other => ?_) ?_ valid.placed.bounded
    · have := holds other
      rw [places, places]
      dsimp only
      rw [holding_cons]
      omega
    · dsimp only
      rw [List.length_cons]
      omega
  exact ⟨placed, valid.given.handed placed rfl before (Or.inr zero) (fun _ mem => mem)
    (fun _ mem => (mem_takeOut taken).mpr (Or.inr mem)) rfl⟩

theorem create_valid (valid : Valid config pool outputs) (now : Nat) {next : State × Output}
    (stepped : step config pool (.create now) = some next) :
    Valid config next.1 (outputs ++ [next.2]) := by
  rw [step] at stepped
  split at stepped
  · cases stepped
  · cases stepped
    refine ⟨⟨valid.placed.counted, valid.placed.bounded, ?_, ?_⟩, Given.quiet ?_ nofun⟩
    · intro id
      have distinct := valid.placed.distinct id
      have fresh := valid.placed.known pool.nextId (Nat.le_refl _)
      dsimp only
      rw [holding_cons]
      by_cases same : pool.nextId = id
      · rw [← same] at distinct ⊢
        rw [if_pos rfl]
        omega
      · rw [if_neg same]
        omega
    · intro id new
      have := valid.placed.known id (Nat.le_of_succ_le new)
      dsimp only at new ⊢
      rw [holding_cons, if_neg (by show ¬ pool.nextId = id; omega)]
      omega
    · refine ⟨valid.given.idle, valid.given.out, ?_, ?_, valid.given.limit⟩
      · intro conn mem
        rw [List.mem_cons] at mem
        rcases mem with rfl | mem
        · exact ⟨valid.given.known _ (Nat.le_refl _), rfl⟩
        · exact valid.given.created conn mem
      · intro id new
        exact valid.given.known id (Nat.le_of_succ_le new)

theorem release_valid (valid : Valid config pool outputs) (id : Nat) (isConnected : Bool) (now : Nat)
    {next : State × Output} (stepped : step config pool (.release id isConnected now) = some next) :
    Valid config next.1 (outputs ++ [next.2]) := by
  simp only [step, Option.map_eq_some_iff] at stepped
  obtain ⟨⟨conn, out⟩, taken, stepped⟩ := stepped
  have counted := valid.placed.counted
  have lengths := length_takeOut taken
  have holds (other : Nat) := holding_takeOut taken other
  have stays (other : Conn) (mem : other ∈ out) : other ∈ pool.out :=
    (mem_takeOut taken).mpr (Or.inr mem)
  have before := valid.given.out conn ((mem_takeOut taken).mpr (Or.inl rfl))
  simp only [holding_cons] at holds
  dsimp only at stepped
  split at stepped
  · cases stepped
    refine ⟨valid.placed.moved rfl (fun other => ?_) ?_ valid.placed.bounded, Given.quiet ?_ nofun⟩
    · have := holds other
      rw [places, places]
      dsimp only
      omega
    · dsimp only
      omega
    · exact ⟨valid.given.idle, fun other mem => valid.given.out other (stays other mem),
        valid.given.created, valid.given.known, valid.given.limit⟩
  · rename_i kept
    simp only [Bool.or_eq_true, decide_eq_true_eq, not_or] at kept
    obtain ⟨⟨⟨_, roomy⟩, _⟩, fewer⟩ := kept
    cases stepped
    refine ⟨valid.placed.moved rfl (fun other => ?_) ?_ ?_, Given.quiet ?_ nofun⟩
    · have := holds other
      rw [places, places]
      dsimp only
      rw [holding_cons]
      dsimp only
      omega
    · dsimp only
      rw [List.length_cons]
      omega
    · dsimp only
      rw [List.length_cons]
      omega
    · refine ⟨?_, fun other mem => valid.given.out other (stays other mem), valid.given.created,
        valid.given.known, valid.given.limit⟩
      intro other mem
      dsimp only at mem
      rw [List.mem_cons] at mem
      rcases mem with mem | mem | rfl | mem
      · exact valid.given.idle other (Or.inl mem)
      · exact valid.given.idle other (Or.inr (Or.inl mem))
      · exact ⟨before, Nat.lt_of_not_ge fewer⟩
      · exact valid.given.idle other (Or.inr (Or.inr mem))

theorem push_valid (valid : Valid config pool outputs) (id : Nat) {next : State × Output}
    (stepped : step config pool (.push id) = some next) :
    Valid config next.1 (outputs ++ [next.2]) := by
  rw [step] at stepped
  split at stepped
  · cases stepped
  rw [Option.map_eq_some_iff] at stepped
  obtain ⟨⟨conn, pushing⟩, taken, rfl⟩ := stepped
  have counted := valid.placed.counted
  have bounded := valid.placed.bounded
  have lengths := length_takeOut taken
  have holds (other : Nat) := holding_takeOut taken other
  simp only [holding_cons] at holds
  refine ⟨valid.placed.moved rfl (fun other => ?_) ?_ ?_, Given.quiet ?_ nofun⟩
  · have := holds other
    rw [places, places]
    dsimp only
    rw [holding_append, holding_cons, holding_nil]
    omega
  · dsimp only
    rw [List.length_append, List.length_singleton]
    omega
  · dsimp only
    rw [List.length_append, List.length_singleton]
    omega
  · refine ⟨?_, valid.given.out, valid.given.created, valid.given.known, valid.given.limit⟩
    intro other mem
    refine valid.given.idle other ?_
    dsimp only at mem
    rw [List.mem_append, List.mem_singleton] at mem
    rw [mem_takeOut taken]
    tauto

/-- **Every step keeps the invariant.** -/
theorem step_valid (valid : Valid config pool outputs) (label : Label) {next : State × Output}
    (stepped : step config pool label = some next) : Valid config next.1 (outputs ++ [next.2]) := by
  cases label with
  | get isConnected now => exact get_valid valid isConnected now stepped
  | discount => exact discount_valid valid stepped
  | count id => exact count_valid valid id stepped
  | create now => exact create_valid valid now stepped
  | release id isConnected now => exact release_valid valid id isConnected now stepped
  | push id => exact push_valid valid id stepped
  | connectFails =>
    rw [step] at stepped
    split at stepped
    · cases stepped
    · cases stepped
      exact ⟨⟨valid.placed.counted, valid.placed.bounded, valid.placed.distinct,
        valid.placed.known⟩, Given.quiet ⟨valid.given.idle, valid.given.out, valid.given.created,
        valid.given.known, valid.given.limit⟩ nofun⟩
  | uncount =>
    rw [step] at stepped
    split at stepped
    · cases stepped
    · rename_i busy
      cases stepped
      have counted := valid.placed.counted
      refine ⟨⟨?_, valid.placed.bounded, valid.placed.distinct, valid.placed.known⟩,
        Given.quiet ⟨valid.given.idle, valid.given.out, valid.given.created, valid.given.known,
          valid.given.limit⟩ nofun⟩
      dsimp only
      omega

theorem run_valid {labels : List Label} (executed : trace (step config) new labels =
    some (pool, outputs)) : Valid config pool outputs :=
  @trace_history State Label Output (step config) (Valid config)
    (fun _ _ label _ valid stepped => step_valid valid label stepped) labels new pool [] outputs
    (valid_new config) executed

/-- **What every interleaving of the calls keeps**: with no call in progress the counter is the number
of connections, idle and held; the idle list stays within `m_maxSize` and holds no connection that a
user holds; no two users hold one; and none is handed out more often than `m_maxRequest` allows. -/
theorem pool_sound (config : Config) {labels : List Label} {pool : State} {outputs : List Output}
    (executed : trace (step config) new labels = some (pool, outputs)) :
    (Quiet pool → pool.total = pool.conns.length + pool.out.length) ∧
    pool.conns.length ≤ config.maxSize ∧
    (∀ idle ∈ pool.conns, ∀ held ∈ pool.out, idle.id ≠ held.id) ∧
    (pool.out.map Conn.id).Nodup ∧
    ∀ id, timesGiven id outputs ≤ max 1 config.maxRequest := by
  have valid := run_valid executed
  have counted := valid.placed.counted
  have bounded := valid.placed.bounded
  refine ⟨?_, by omega, ?_, ?_, valid.given.limit⟩
  · rintro ⟨unlocked, -, -, deleting, pushing⟩
    rw [counted, unlocked, deleting, pushing]
    rfl
  · intro idle idleMem held heldMem same
    have distinct := valid.placed.distinct idle.id
    have first := holding_pos idleMem
    have second := holding_pos heldMem
    rw [← same] at second
    omega
  · rw [List.nodup_iff_count_le_one]
    intro id
    have distinct := valid.placed.distinct id
    have count : (pool.out.map Conn.id).count id = holding id pool.out := by
      unfold holding
      rw [List.count, List.countP_map]
      rfl
    omega

/-- A pool of one idle connection: two are made, one comes back and is taken again, the other one is
given up, and the first one ends after its second request. -/
theorem pool_sound_twice :
    let labels : List Label :=
      [.get (fun _ => true) (fun _ => 0), .discount, .get (fun _ => true) (fun _ => 0), .discount,
        .create 0, .create 0, .count 0, .count 1, .release 1 true 5, .uncount, .release 0 true 5,
        .push 0, .get (fun _ => true) (fun _ => 6), .discount, .release 0 true 7, .uncount]
    let outputs : List Output :=
      [.none, .none, .none, .none, .none, .none, .handed 0, .handed 1, .none, .none, .none, .none,
        .none, .handed 0, .none, .none]
    trace (step ⟨1, 100, 2⟩) new labels =
        some (⟨[], 0, none, [], 0, [], 0, [], 2⟩, outputs) ∧
      timesGiven 0 outputs ≤ 2 := by
  have executed : trace (step ⟨1, 100, 2⟩) new
      [.get (fun _ => true) (fun _ => 0), .discount, .get (fun _ => true) (fun _ => 0), .discount,
        .create 0, .create 0, .count 0, .count 1, .release 1 true 5, .uncount, .release 0 true 5,
        .push 0, .get (fun _ => true) (fun _ => 6), .discount, .release 0 true 7, .uncount] =
      some (⟨[], 0, none, [], 0, [], 0, [], 2⟩, [.none, .none, .none, .none, .none, .none, .handed 0,
        .handed 1, .none, .none, .none, .none, .none, .handed 0, .none, .none]) := by
    decide
  exact ⟨executed, (pool_sound ⟨1, 100, 2⟩ executed).2.2.2.2 0⟩

end Wyze.Http.HttpConnectionPool
