/-
**How long `HttpConnectionPool` keeps its connections.**

The constructor stores `max_alive_time + GetCurrentMS()` in 32 bits, and the two tests of the age add
what it stored to the time a connection was made. `ages_iff` says for which pools and which span of
time the two tests are about `max_alive_time`, whatever the calls are: what the constructor stored has
to be `max_alive_time` again, or the pool is in use for less than both of them.

* `Later`: the clock of a run does not go back.
* `AgeLaw`: what a step of the pool may do with a connection of some age.
* `Agree`: the tests of the source and those of the age are the same.
-/
import Wyze.Http.Pool

namespace Wyze.Http.HttpConnectionPool

open Labelled

/-- `HttpConnectionPool::HttpConnectionPool`, at the time `now`: `m_maxAliveTime` has 32 bits. -/
def construct (maxSize maxAliveTime maxRequest now : Nat) : Config :=
  ⟨maxSize, (maxAliveTime + now) % 2 ^ 32, maxRequest⟩

/-- What a label reads from the clock is between two times. -/
def Label.ReadsWithin (clock after : Nat) : Label → Prop
  | .get _ now => ∀ id, clock ≤ now id ∧ now id ≤ after
  | .create now | .release _ _ now => clock ≤ now ∧ now ≤ after
  | _ => True

/-- The clock of a run does not go back, and the run ends at the time `last`. -/
def Later (last : Nat) : Nat → List Label → Prop
  | _, [] => True
  | clock, label :: labels =>
    ∃ after, clock ≤ after ∧ after ≤ last ∧ label.ReadsWithin clock after ∧ Later last after labels

/-- **What a step may do with the age of a connection**: `getConnection` takes an idle connection only
if its age is below the limit, and `ReleasePtr` keeps a connected one within the other limits whenever
its age is. -/
def AgeLaw (config : Config) (maxAliveTime : Nat) (pool : State) (label : Label) : Prop :=
  ∀ next, step config pool label = some next →
    match label with
    | .get _ now => ∀ invalid conn, next.1.locked = some (invalid, some conn) →
        now conn.id - conn.createTimes < maxAliveTime
    | .release id isConnected now => ∀ conn out, takeOut id pool.out = some (conn, out) →
        isConnected = true → pool.total ≤ config.maxSize → conn.request + 1 < config.maxRequest →
        now - conn.createTimes < maxAliveTime →
        { conn with request := conn.request + 1 } ∈ next.1.pushing
    | _ => True

/-- Between two times, `m_createTimes + m_maxAliveTime <= GetCurrentMS()` is a test of the age. -/
def Agree (config : Config) (maxAliveTime start last : Nat) : Prop :=
  ∀ conn now, start ≤ conn.createTimes → conn.createTimes ≤ now → now ≤ last →
    (expired config conn now = false ↔ now - conn.createTimes < maxAliveTime)

variable {config : Config} {pool : State} {outputs : List Output} {start clock after last : Nat}
  {maxAliveTime : Nat}

/-! ### When the tests agree -/

/-- **The tests agree** as long as the stored limit is the asked one or neither is reached, and nothing
goes beyond 64 bits. -/
theorem agree_iff (maxSize maxRequest : Nat) (small : maxAliveTime < 2 ^ 32) (order : start ≤ last)
    (fits : last < 2 ^ 64) :
    Agree (construct maxSize maxAliveTime maxRequest start) maxAliveTime start last ↔
      last + (maxAliveTime + start) % 2 ^ 32 < 2 ^ 64 ∧
          ((maxAliveTime + start) % 2 ^ 32 = maxAliveTime ∨
            last - start < min ((maxAliveTime + start) % 2 ^ 32) maxAliveTime) ∨
        maxAliveTime = 0 ∧ 2 ^ 64 ≤ start + (maxAliveTime + start) % 2 ^ 32 := by
  have test (conn : Conn) (now : Nat) :
      expired (construct maxSize maxAliveTime maxRequest start) conn now = false ↔
        now < (conn.createTimes + (maxAliveTime + start) % 2 ^ 32) % 2 ^ 64 := by
    rw [expired, add64, construct, decide_eq_false_iff_not, Nat.not_le]
  unfold Agree
  simp only [test]
  have below : (maxAliveTime + start) % 2 ^ 32 < 2 ^ 32 := Nat.mod_lt _ (by decide)
  generalize (maxAliveTime + start) % 2 ^ 32 = stored at below ⊢
  constructor
  · intro agree
    have atEnd := agree ⟨0, last, 0⟩ last order le_rfl le_rfl
    have atStart := agree ⟨0, start, 0⟩ start le_rfl le_rfl order
    have atStored := agree ⟨0, start, 0⟩ (start + stored) le_rfl (Nat.le_add_right _ _)
    have atAsked := agree ⟨0, start, 0⟩ (start + maxAliveTime) le_rfl (Nat.le_add_right _ _)
    dsimp only at atEnd atStart atStored atAsked
    omega
  · rintro (⟨inside, same | short⟩ | ⟨zero, beyond⟩) conn now first second third
    · rw [Nat.mod_eq_of_lt (by omega)]
      omega
    · rw [Nat.mod_eq_of_lt (by omega)]
      omega
    · omega

/-! ### Every connection was made after the pool and before now -/

/-- The connections of the pool, wherever they are. -/
def Holds (pool : State) (conn : Conn) : Prop :=
  conn ∈ pool.conns ∨ conn ∈ raw pool.locked ∨ conn ∈ pool.out ∨ conn ∈ pool.created ∨
    conn ∈ pool.pushing

/-- The connections were made between two times. -/
def Dated (start clock : Nat) (pool : State) : Prop :=
  ∀ conn, Holds pool conn → start ≤ conn.createTimes ∧ conn.createTimes ≤ clock

/-- What the loop of `getConnection` takes and what it leaves was on the list, and it takes a connection
that passes its test. -/
theorem scan_found (config : Config) (isConnected : Nat → Bool) (now : Nat → Nat)
    (conns : List Conn) :
    (∀ conn ∈ (scan config isConnected now conns).2.1,
      conn ∈ conns ∧ expired config conn (now conn.id) = false) ∧
    ∀ conn ∈ (scan config isConnected now conns).2.2, conn ∈ conns := by
  induction conns with
  | nil => exact ⟨by rintro _ ⟨⟩, fun _ mem => mem⟩
  | cons first conns ih =>
    rw [scan]
    split
    · exact ⟨fun conn mem => ⟨List.mem_cons_of_mem _ (ih.1 conn mem).1, (ih.1 conn mem).2⟩,
        fun conn mem => List.mem_cons_of_mem _ (ih.2 conn mem)⟩
    · rename_i passes
      refine ⟨?_, fun conn mem => List.mem_cons_of_mem _ mem⟩
      rintro conn ⟨⟩
      simp only [Bool.or_eq_true, not_or, Bool.not_eq_true] at passes
      exact ⟨List.mem_cons_self, passes.2⟩

section Places

variable {conn : Conn}

theorem Holds.idle (mem : conn ∈ pool.conns) : Holds pool conn := Or.inl mem

theorem Holds.locked (mem : conn ∈ raw pool.locked) : Holds pool conn := Or.inr (Or.inl mem)

theorem Holds.out (mem : conn ∈ pool.out) : Holds pool conn := Or.inr (Or.inr (Or.inl mem))

theorem Holds.created (mem : conn ∈ pool.created) : Holds pool conn :=
  Or.inr (Or.inr (Or.inr (Or.inl mem)))

theorem Holds.pushing (mem : conn ∈ pool.pushing) : Holds pool conn :=
  Or.inr (Or.inr (Or.inr (Or.inr mem)))

/-- The connection, with another count of requests, is one of the pool, or it was made between two
times. -/
def Traced (clock after : Nat) (pool : State) (conn : Conn) : Prop :=
  (∃ old, Holds pool old ∧ old.createTimes = conn.createTimes) ∨
    clock ≤ conn.createTimes ∧ conn.createTimes ≤ after

theorem Holds.traced (held : Holds pool conn) : Traced clock after pool conn :=
  Or.inl ⟨conn, held, rfl⟩

variable {next : State × Output} {id : Nat} {isConnected : Nat → Bool} {now : Nat → Nat}

theorem get_traced (stepped : step config pool (.get isConnected now) = some next)
    (held : Holds next.1 conn) : Traced clock after pool conn := by
  obtain ⟨found, rest⟩ := scan_found config isConnected now pool.conns
  rw [step] at stepped
  split at stepped
  · cases stepped
  cases stepped
  rcases held with mem | mem | mem
  · exact Holds.traced (.idle (rest conn mem))
  · exact Holds.traced (.idle (found conn (Option.mem_toList.mp mem)).1)
  · exact Holds.traced (Or.inr (Or.inr mem))

theorem discount_traced (stepped : step config pool .discount = some next)
    (held : Holds next.1 conn) : Traced clock after pool conn := by
  rw [step, Option.map_eq_some_iff] at stepped
  obtain ⟨⟨invalid, found⟩, locked, stepped⟩ := stepped
  have rawEq : raw pool.locked = found.toList := by rw [raw, locked]; rfl
  cases found with
  | none =>
    cases stepped
    exact Holds.traced (held.imp_right fun mem => Or.inr (mem.resolve_left List.not_mem_nil))
  | some taken =>
    cases stepped
    rcases held with mem | mem | mem | mem
    · exact Holds.traced (.idle mem)
    · exact absurd mem List.not_mem_nil
    · rcases List.mem_cons.mp mem with rfl | mem
      · exact Holds.traced (.locked (by rw [rawEq]; exact List.mem_cons_self))
      · exact Holds.traced (.out mem)
    · exact Holds.traced (Or.inr (Or.inr (Or.inr mem)))

theorem create_traced {made : Nat} (reads : (Label.create made).ReadsWithin clock after)
    (stepped : step config pool (.create made) = some next) (held : Holds next.1 conn) :
    Traced clock after pool conn := by
  rw [step] at stepped
  split at stepped
  · cases stepped
  cases stepped
  rcases held with mem | mem | mem | mem | mem
  · exact Holds.traced (.idle mem)
  · exact Holds.traced (.locked mem)
  · exact Holds.traced (.out mem)
  · rcases List.mem_cons.mp mem with rfl | mem
    · exact Or.inr reads
    · exact Holds.traced (.created mem)
  · exact Holds.traced (.pushing mem)

theorem count_traced (stepped : step config pool (.count id) = some next)
    (held : Holds next.1 conn) : Traced clock after pool conn := by
  simp only [step, Option.map_eq_some_iff] at stepped
  obtain ⟨⟨taken, created⟩, took, rfl⟩ := stepped
  rcases held with mem | mem | mem | mem | mem
  · exact Holds.traced (.idle mem)
  · exact Holds.traced (.locked mem)
  · rcases List.mem_cons.mp mem with rfl | mem
    · exact Holds.traced (.created ((mem_takeOut took).mpr (Or.inl rfl)))
    · exact Holds.traced (.out mem)
  · exact Holds.traced (.created ((mem_takeOut took).mpr (Or.inr mem)))
  · exact Holds.traced (.pushing mem)

theorem release_traced {connected : Bool} {read : Nat}
    (stepped : step config pool (.release id connected read) = some next)
    (held : Holds next.1 conn) : Traced clock after pool conn := by
  simp only [step, Option.map_eq_some_iff] at stepped
  obtain ⟨⟨taken, out⟩, took, stepped⟩ := stepped
  have known : Holds pool taken := .out ((mem_takeOut took).mpr (Or.inl rfl))
  have others (mem : conn ∈ out) : Holds pool conn := .out ((mem_takeOut took).mpr (Or.inr mem))
  dsimp only at stepped
  split at stepped
  · cases stepped
    rcases held with mem | mem | mem | mem
    · exact Holds.traced (.idle mem)
    · exact Holds.traced (.locked mem)
    · exact Holds.traced (others mem)
    · exact Holds.traced (Or.inr (Or.inr (Or.inr mem)))
  · cases stepped
    rcases held with mem | mem | mem | mem | mem
    · exact Holds.traced (.idle mem)
    · exact Holds.traced (.locked mem)
    · exact Holds.traced (others mem)
    · exact Holds.traced (.created mem)
    · rcases List.mem_cons.mp mem with rfl | mem
      · exact Or.inl ⟨taken, known, rfl⟩
      · exact Holds.traced (.pushing mem)

theorem push_traced (stepped : step config pool (.push id) = some next)
    (held : Holds next.1 conn) : Traced clock after pool conn := by
  rw [step] at stepped
  split at stepped
  · cases stepped
  rw [Option.map_eq_some_iff] at stepped
  obtain ⟨⟨taken, pushing⟩, took, rfl⟩ := stepped
  rcases held with mem | mem | mem | mem | mem
  · rcases List.mem_append.mp mem with mem | mem
    · exact Holds.traced (.idle mem)
    · rw [List.mem_singleton.mp mem]
      exact Or.inl ⟨taken, .pushing ((mem_takeOut took).mpr (Or.inl rfl)), rfl⟩
  · exact Holds.traced (.locked mem)
  · exact Holds.traced (.out mem)
  · exact Holds.traced (.created mem)
  · exact Holds.traced (.pushing ((mem_takeOut took).mpr (Or.inr mem)))

/-- A step moves connections, counts their requests and makes new ones at the time it reads. -/
theorem step_traced {label : Label} (reads : label.ReadsWithin clock after)
    (stepped : step config pool label = some next) (held : Holds next.1 conn) :
    Traced clock after pool conn := by
  cases label with
  | get => exact get_traced stepped held
  | discount => exact discount_traced stepped held
  | create => exact create_traced reads stepped held
  | count => exact count_traced stepped held
  | release => exact release_traced stepped held
  | push => exact push_traced stepped held
  | connectFails | uncount =>
    rw [step] at stepped
    split at stepped
    · cases stepped
    · cases stepped
      exact held.traced

end Places

theorem step_dated {label : Label} {next : State × Output} (dated : Dated start clock pool)
    (begun : start ≤ clock) (later : clock ≤ after) (reads : label.ReadsWithin clock after)
    (stepped : step config pool label = some next) : Dated start after next.1 := by
  intro conn held
  rcases step_traced reads stepped held with ⟨old, known, same⟩ | ⟨first, second⟩
  · obtain ⟨first, second⟩ := dated old known
    omega
  · omega

/-! ### The law in one step -/

/-- Where the tests agree, every step keeps the law. -/
theorem step_lawful {label : Label} (agree : Agree config maxAliveTime start last)
    (dated : Dated start clock pool) (final : after ≤ last)
    (reads : label.ReadsWithin clock after) : AgeLaw config maxAliveTime pool label := by
  intro next stepped
  cases label with
  | get isConnected now =>
    intro invalid conn locked
    obtain ⟨found, _⟩ := scan_found config isConnected now pool.conns
    rw [step] at stepped
    split at stepped
    · cases stepped
    cases stepped
    dsimp only at locked
    obtain ⟨listed, alive⟩ := found conn (Prod.mk.inj (Option.some.inj locked)).2
    obtain ⟨first, second⟩ := dated conn (.idle listed)
    obtain ⟨third, fourth⟩ := reads conn.id
    exact (agree conn (now conn.id) first (second.trans third) (fourth.trans final)).mp alive
  | release id isConnected now =>
    intro conn out took connected roomy fewer young
    obtain ⟨first, second⟩ := dated conn (.out ((mem_takeOut took).mpr (Or.inl rfl)))
    obtain ⟨third, fourth⟩ := reads
    have alive := (agree { conn with request := conn.request + 1 } now first (second.trans third)
      (fourth.trans final)).mpr young
    simp only [step, took, Option.map_some] at stepped
    rw [if_neg (by
      simp only [connected, alive, Bool.or_eq_true, decide_eq_true_eq, Bool.not_true,
        Bool.false_eq_true, false_or, or_false]
      omega)] at stepped
    cases stepped
    exact List.mem_cons_self
  | discount | connectFails | create | count | uncount | push => trivial

/-! ### Pools that keep no connection -/

/-- No connection is idle or on its way to the idle list. -/
def NoneIdle (pool : State) : Prop :=
  pool.conns = [] ∧ raw pool.locked = [] ∧ pool.pushing = []

/-- A released connection is counted, and it has at least one request behind it. -/
theorem never_kept (valid : Valid config pool outputs)
    (keepsNone : config.maxSize = 0 ∨ config.maxRequest ≤ 1) {id : Nat} {conn : Conn}
    {out : List Conn} (took : takeOut id pool.out = some (conn, out)) :
    config.maxSize < pool.total ∨ config.maxRequest ≤ conn.request + 1 := by
  have counted := valid.placed.counted
  have length := length_takeOut took
  omega

theorem step_noneIdle {label : Label} {next : State × Output} (valid : Valid config pool outputs)
    (keepsNone : config.maxSize = 0 ∨ config.maxRequest ≤ 1) (empty : NoneIdle pool)
    (stepped : step config pool label = some next) : NoneIdle next.1 := by
  obtain ⟨noConns, noRaw, noPushing⟩ := empty
  cases label with
  | get isConnected now =>
    rw [step, noConns] at stepped
    split at stepped
    · cases stepped
    · cases stepped
      exact ⟨rfl, rfl, noPushing⟩
  | discount =>
    rw [step, Option.map_eq_some_iff] at stepped
    obtain ⟨⟨invalid, found⟩, locked, stepped⟩ := stepped
    cases found <;> cases stepped <;> exact ⟨noConns, rfl, noPushing⟩
  | connectFails | create | uncount =>
    rw [step] at stepped
    split at stepped
    · cases stepped
    · cases stepped
      exact ⟨noConns, noRaw, noPushing⟩
  | count id =>
    simp only [step, Option.map_eq_some_iff] at stepped
    obtain ⟨⟨taken, created⟩, took, rfl⟩ := stepped
    exact ⟨noConns, noRaw, noPushing⟩
  | release id isConnected now =>
    simp only [step, Option.map_eq_some_iff] at stepped
    obtain ⟨⟨taken, out⟩, took, stepped⟩ := stepped
    have beyond := never_kept valid keepsNone took
    dsimp only at stepped
    rw [if_pos (by
      simp only [Bool.or_eq_true, decide_eq_true_eq]
      omega)] at stepped
    cases stepped
    exact ⟨noConns, noRaw, noPushing⟩
  | push id =>
    rw [step, noPushing] at stepped
    split at stepped <;> cases stepped

theorem noneIdle_lawful {label : Label} (valid : Valid config pool outputs)
    (keepsNone : config.maxSize = 0 ∨ config.maxRequest ≤ 1) (empty : NoneIdle pool) :
    AgeLaw config maxAliveTime pool label := by
  intro next stepped
  cases label with
  | get isConnected now =>
    intro invalid conn locked
    rw [step, empty.1] at stepped
    split at stepped
    · cases stepped
    · cases stepped
      exact absurd (Prod.mk.inj (Option.some.inj locked)).2 (by rintro ⟨⟩)
  | release id isConnected now =>
    intro conn out took _ roomy fewer
    have beyond := never_kept valid keepsNone took
    omega
  | discount | connectFails | create | count | uncount | push => trivial

/-! ### Runs that keep the law -/

/-- **The law along a run**, from what every step keeps of a state, its outputs and the time. -/
theorem run_lawful (holds : State → List Output → Nat → Prop)
    (keeps : ∀ pool outputs clock after label next, holds pool outputs clock → clock ≤ after →
      label.ReadsWithin clock after → step config pool label = some next →
      holds next.1 (outputs ++ [next.2]) after)
    (lawful : ∀ pool outputs clock after label, holds pool outputs clock → after ≤ last →
      label.ReadsWithin clock after → AgeLaw config maxAliveTime pool label) :
    ∀ (labels : List Label) (pool : State) (outputs : List Output) (clock : Nat),
      holds pool outputs clock → Later last clock labels →
      Meets (step config) (AgeLaw config maxAliveTime) pool labels := by
  intro labels
  induction labels with
  | nil => exact fun _ _ _ _ _ => trivial
  | cons label labels ih =>
    rintro pool outputs clock here ⟨after, later, final, reads, rest⟩
    exact ⟨lawful pool outputs clock after label here final reads, fun next stepped =>
      ih _ _ after (keeps pool outputs clock after label next here later reads stepped) rest⟩

theorem agree_run (agree : Agree config maxAliveTime start last) (labels : List Label)
    (later : Later last start labels) :
    Meets (step config) (AgeLaw config maxAliveTime) new labels := by
  refine run_lawful (fun pool _ clock => start ≤ clock ∧ Dated start clock pool)
    ?_ ?_ labels new [] start ⟨le_rfl, ?_⟩ later
  · rintro pool _ clock after label next ⟨begun, dated⟩ order reads stepped
    exact ⟨begun.trans order, step_dated dated begun order reads stepped⟩
  · rintro pool _ clock after label ⟨_, dated⟩ final reads
    exact step_lawful agree dated final reads
  · intro conn held
    simp [Holds, new, raw] at held

theorem keepsNone_run (keepsNone : config.maxSize = 0 ∨ config.maxRequest ≤ 1)
    (labels : List Label) (later : Later last start labels) :
    Meets (step config) (AgeLaw config maxAliveTime) new labels := by
  refine run_lawful (fun pool outputs _ => Valid config pool outputs ∧ NoneIdle pool)
    ?_ ?_ labels new [] start ⟨valid_new config, rfl, rfl, rfl⟩ later
  · rintro pool outputs _ _ label next ⟨valid, empty⟩ _ _ stepped
    exact ⟨step_valid valid label stepped, step_noneIdle valid keepsNone empty stepped⟩
  · rintro pool outputs _ _ label ⟨valid, empty⟩ _ _
    exact noneIdle_lawful valid keepsNone empty

/-! ### Runs that show where the tests do not agree -/

/-- A connection is made at the time `made` and handed out. -/
def makeOne (made : Nat) : List Label :=
  [.get (fun _ => true) (fun _ => made), .discount, .create made, .count 0]

theorem makeOne_run (config : Config) (made : Nat) :
    trace (step config) new (makeOne made) =
      some (⟨[], 1, none, [⟨0, made, 0⟩], 0, [], 0, [], 1⟩, [.none, .none, .none, .handed 0]) := by
  simp [trace, makeOne, step, new, scan, takeOut]

/-- Its user gives it back at the time `now`, and it is idle. -/
theorem giveBack_run {made now : Nat} (roomy : 1 ≤ config.maxSize)
    (fewer : 1 < config.maxRequest) (alive : expired config ⟨0, made, 1⟩ now = false) :
    trace (step config) ⟨[], 1, none, [⟨0, made, 0⟩], 0, [], 0, [], 1⟩
        [.release 0 true now, .push 0] =
      some (⟨[⟨0, made, 1⟩], 1, none, [], 0, [], 0, [], 1⟩, [.none, .none]) := by
  have notFull : ¬ config.maxSize < 1 := by omega
  have notLast : ¬ config.maxRequest ≤ 1 := by omega
  simp [trace, step, takeOut, alive, notFull, notLast]

/-- The connection is given back at the time `now`, and the next call looks at it. -/
def takeAgain (made now : Nat) : List Label :=
  makeOne made ++ [.release 0 true now, .push 0] ++ [.get (fun _ => true) (fun _ => now)]

/-- A connection that passes the tests is taken again; in a lawful run it is young. -/
theorem takeAgain_young {made now : Nat} (roomy : 1 ≤ config.maxSize)
    (fewer : 1 < config.maxRequest) (alive : expired config ⟨0, made, 1⟩ now = false)
    (lawful : Meets (step config) (AgeLaw config maxAliveTime) new (takeAgain made now)) :
    now - made < maxAliveTime := by
  have run := trace_append_eq_some.mpr ⟨_, _, _, makeOne_run config made,
    giveBack_run roomy fewer alive, rfl⟩
  have here := (meets_append.mp lawful).2 _ _ run
  refine here.1 (⟨[], 1, some (0, some ⟨0, made, 1⟩), [], 0, [], 0, [], 1⟩, .none) ?_ 0
    ⟨0, made, 1⟩ rfl
  simp [step, scan, alive]

/-- A young connection is kept in a lawful run, so it passes the test. -/
theorem giveBack_alive {made now : Nat} (roomy : 1 ≤ config.maxSize)
    (fewer : 1 < config.maxRequest) (young : now - made < maxAliveTime)
    (lawful : Meets (step config) (AgeLaw config maxAliveTime) new
      (makeOne made ++ [.release 0 true now])) :
    expired config ⟨0, made, 1⟩ now = false := by
  have here := (meets_append.mp lawful).2 _ _ (makeOne_run config made)
  by_contra gone
  rw [Bool.not_eq_false] at gone
  have kept := here.1 (⟨[], 1, none, [], 0, [], 1, [], 1⟩, .none)
    (by simp [step, takeOut, gone]) ⟨0, made, 0⟩ [] (by simp [takeOut]) rfl roomy fewer young
  exact absurd kept List.not_mem_nil

theorem later_makeOne {made : Nat} (first : start ≤ made) (second : made ≤ last)
    {rest : List Label} (after : Later last made rest) :
    Later last start (makeOne made ++ rest) :=
  have reads : Label.ReadsWithin start made (.get (fun _ => true) (fun _ => made)) :=
    fun _ => ⟨first, le_rfl⟩
  ⟨made, first, second, reads, made, le_rfl, second, trivial, made, le_rfl, second,
    ⟨le_rfl, le_rfl⟩, made, le_rfl, second, trivial, after⟩

theorem later_giveBack {made now : Nat} (first : made ≤ now) (second : now ≤ last)
    {rest : List Label} (after : Later last now rest) :
    Later last made (.release 0 true now :: rest) :=
  ⟨now, first, second, ⟨first, le_rfl⟩, after⟩

theorem later_takeAgain {made now : Nat} (first : start ≤ made) (second : made ≤ now)
    (third : now ≤ last) : Later last start (takeAgain made now) := by
  rw [takeAgain, List.append_assoc]
  exact later_makeOne first (second.trans third) (later_giveBack second third
    ⟨now, le_rfl, third, trivial, now, le_rfl, third, fun _ => ⟨le_rfl, le_rfl⟩, trivial⟩)

/-- **The law in every run makes the tests agree.** -/
theorem agree_of_runs (roomy : 1 ≤ config.maxSize) (fewer : 1 < config.maxRequest)
    (lawful : ∀ labels, Later last start labels →
      Meets (step config) (AgeLaw config maxAliveTime) new labels) :
    Agree config maxAliveTime start last := by
  rintro ⟨id, made, request⟩ now first second third
  have sameTest : expired config ⟨id, made, request⟩ now = expired config ⟨0, made, 1⟩ now := rfl
  rw [sameTest]
  constructor
  · intro alive
    exact takeAgain_young roomy fewer alive (lawful _ (later_takeAgain first second third))
  · intro young
    exact giveBack_alive roomy fewer young (lawful _ (later_makeOne first (second.trans third)
      (later_giveBack second third (show Later last now [] from trivial))))

/-- **When the pool keeps the asked ages**: for a pool made at the time `start` and used until `last`,
every run keeps the law exactly if the pool never has an idle connection, or what the constructor stored
is the asked limit again, or the pool is in use for less than both of them, and the sums of the tests
stay within 64 bits. -/
theorem ages_iff (maxSize maxRequest : Nat) (small : maxAliveTime < 2 ^ 32) (order : start ≤ last)
    (fits : last < 2 ^ 64) :
    (∀ labels, Later last start labels →
      Meets (step (construct maxSize maxAliveTime maxRequest start))
        (AgeLaw (construct maxSize maxAliveTime maxRequest start) maxAliveTime) new labels) ↔
      (maxSize = 0 ∨ maxRequest ≤ 1) ∨
      last + (maxAliveTime + start) % 2 ^ 32 < 2 ^ 64 ∧
          ((maxAliveTime + start) % 2 ^ 32 = maxAliveTime ∨
            last - start < min ((maxAliveTime + start) % 2 ^ 32) maxAliveTime) ∨
        maxAliveTime = 0 ∧ 2 ^ 64 ≤ start + (maxAliveTime + start) % 2 ^ 32 := by
  rw [← agree_iff maxSize maxRequest small order fits]
  constructor
  · intro lawful
    by_cases keepsNone : maxSize = 0 ∨ maxRequest ≤ 1
    · exact Or.inl keepsNone
    · rw [not_or, Nat.not_le] at keepsNone
      exact Or.inr (agree_of_runs (Nat.one_le_iff_ne_zero.mpr keepsNone.1) keepsNone.2 lawful)
  · rintro (keepsNone | agree)
    · exact keepsNone_run keepsNone
    · exact agree_run agree

/-- A pool made at a multiple of `2 ^ 32` milliseconds keeps a connection for 59999 of them. -/
theorem ages_iff_multiple :
    Meets (step (construct 1 60000 2 1717986918400))
      (AgeLaw (construct 1 60000 2 1717986918400) 60000) new
      (takeAgain 1717986918400 1717986978399) := by
  have later : Later 1718000000000 1717986918400 (takeAgain 1717986918400 1717986978399) :=
    later_takeAgain (by decide) (by decide) (by decide)
  exact (ages_iff 1 2 (by decide) (by decide) (by decide)).mpr
    (Or.inr (Or.inl ⟨by decide, Or.inl (by decide)⟩)) _ later

/-- A pool that is to keep its connections for a minute hands one out that is as old as that. -/
theorem ages_not_kept :
    Later 1700000060000 1700000000000 (takeAgain 1700000000000 1700000060000) ∧
      ¬ Meets (step (construct 1 60000 2 1700000000000))
        (AgeLaw (construct 1 60000 2 1700000000000) 60000) new
        (takeAgain 1700000000000 1700000060000) :=
  ⟨later_takeAgain (by decide) (by decide) (by decide), fun lawful =>
    absurd (takeAgain_young (by decide) (by decide) (by decide) lawful) (by decide)⟩

end Wyze.Http.HttpConnectionPool
