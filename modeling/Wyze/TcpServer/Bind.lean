/-
**`TcpServer::bind` and the attempts of `Application::main_fiber`.**

`bind` gives a socket to each address, in order; `fails` is the caller's vector, which `bind` only ever
appends to and which decides what it returns. `main_fiber` gives one vector to up to three attempts.

* `bind_spec`: what one call does to the server and to `fails`.
* `serve_spec`: what the attempts come to.
* `bind_lawful_iff`: the runs in which every call returns true exactly when it bound all its addresses
  and leaves the earlier sockets alone when it returns false; and when an attempt that binds all
  addresses starts the server.
-/
import Wyze.Lib.Run

namespace Wyze

/-- A socket that `Socket::CreateTCP` made, the `id`-th one. -/
structure Socket (α : Type*) where
  id : Nat
  addr : α
deriving DecidableEq

/-- What becomes of the socket that is made for an address. -/
inductive BindOutcome where
  | bindFails
  | listenFails
  | listening
deriving DecidableEq

/-- `socks` is `m_socks`, `accepting` the sockets `startAccept` has been scheduled for; `made` counts
the sockets that have been made. -/
structure TcpServer (α : Type*) where
  socks : List (Socket α)
  isStop : Bool
  accepting : List (Socket α)
  made : Nat
deriving DecidableEq

namespace TcpServer

variable {α : Type*}

/-- The constructor. -/
def new : TcpServer α := { socks := [], isStop := true, accepting := [], made := 0 }

/-- One round of the loop over `addrs`, with the outcome for the address. -/
def bindAddr (state : TcpServer α × List α) (addr : α × BindOutcome) : TcpServer α × List α :=
  let sock : Socket α := { id := state.1.made, addr := addr.1 }
  let server := { state.1 with made := state.1.made + 1 }
  match addr.2 with
  | .bindFails => (server, state.2 ++ [addr.1])
  | .listenFails => (server, state.2 ++ [addr.1])
  | .listening => ({ server with socks := server.socks ++ [sock] }, state.2)

/-- `bind`: what it returns, the server and `fails` afterwards. -/
def bind (server : TcpServer α) (addrs : List (α × BindOutcome)) (fails : List α) :
    Bool × TcpServer α × List α :=
  let (server, fails) := addrs.foldl bindAddr (server, fails)
  if !fails.isEmpty then (false, { server with socks := [] }, fails) else (true, server, fails)

def start (server : TcpServer α) : TcpServer α :=
  if !server.isStop then server
  else { server with isStop := false, accepting := server.accepting ++ server.socks }

/-- Every address was bound and is listening. -/
def AllListening (addrs : List (α × BindOutcome)) : Prop := ∀ addr ∈ addrs, addr.2 = .listening

instance (addrs : List (α × BindOutcome)) : Decidable (AllListening addrs) := by
  unfold AllListening
  infer_instance

/-- The addresses that are not listening. -/
def failing (addrs : List (α × BindOutcome)) : List α :=
  (addrs.filter (·.2 ≠ .listening)).map (·.1)

/-- The listening sockets that are made for the addresses, when `made` were made before. -/
def opened (made : Nat) : List (α × BindOutcome) → List (Socket α)
  | [] => []
  | (addr, .listening) :: addrs => { id := made, addr := addr } :: opened (made + 1) addrs
  | _ :: addrs => opened (made + 1) addrs

/-! ### One call -/

theorem foldl_bindAddr (addrs : List (α × BindOutcome)) (server : TcpServer α) (fails : List α) :
    addrs.foldl bindAddr (server, fails) =
      ({ server with
          socks := server.socks ++ opened server.made addrs
          made := server.made + addrs.length }, fails ++ failing addrs) := by
  induction addrs generalizing server fails with
  | nil => simp [opened, failing]
  | cons addr addrs ih =>
      obtain ⟨addr, outcome⟩ := addr
      rw [List.foldl_cons, ih, List.length_cons, Nat.add_comm addrs.length 1, ← Nat.add_assoc]
      cases outcome <;> simp [bindAddr, opened, failing]

theorem failing_eq_nil {addrs : List (α × BindOutcome)} : failing addrs = [] ↔ AllListening addrs := by
  simp [failing, AllListening]

/-- A call that every address listens for opens a socket for each. -/
theorem map_opened {addrs : List (α × BindOutcome)} (all : AllListening addrs) (made : Nat) :
    (opened made addrs).map (·.addr) = addrs.map (·.1) := by
  induction addrs generalizing made with
  | nil => rfl
  | cons addr addrs ih =>
      obtain ⟨addr, outcome⟩ := addr
      obtain ⟨here, later⟩ := List.forall_mem_cons.mp all
      cases (here : outcome = .listening)
      rw [opened, List.map_cons, List.map_cons, ih later]

/-- **One call.** It returns true when `fails` is empty and stays empty, and keeps its sockets only
then. -/
theorem bind_spec (server : TcpServer α) (addrs : List (α × BindOutcome)) (fails : List α) :
    (fails = [] ∧ AllListening addrs ∧ bind server addrs fails =
      (true, { server with
        socks := server.socks ++ opened server.made addrs
        made := server.made + addrs.length }, [])) ∨
    (¬ (fails = [] ∧ AllListening addrs) ∧ bind server addrs fails =
      (false, { server with socks := [], made := server.made + addrs.length },
        fails ++ failing addrs)) := by
  rw [bind, foldl_bindAddr, ← failing_eq_nil, ← List.append_eq_nil_iff]
  dsimp only
  by_cases empty : fails ++ failing addrs = []
  · obtain ⟨none, all⟩ := List.append_eq_nil_iff.mp empty
    rw [empty]
    exact Or.inl ⟨none, all, rfl⟩
  · have filled : (fails ++ failing addrs).isEmpty = false :=
      Bool.eq_false_iff.mpr fun isEmpty => empty (List.isEmpty_iff.mp isEmpty)
    rw [filled]
    exact Or.inr ⟨empty, rfl⟩

/-! ### Runs of calls -/

/-- A call of `bind`, with what its vector holds before. -/
structure Call (α : Type*) where
  addrs : List (α × BindOutcome)
  fails : List α

/-- A server beside the sockets that the calls which returned true have established. -/
structure Recorded (α : Type*) where
  server : TcpServer α
  established : List (Socket α)

/-- What is seen of a call: the sockets established before it and those the server holds after it. -/
structure Seen (α : Type*) where
  call : Call α
  returned : Bool
  established : List (Socket α)
  socks : List (Socket α)

def call (record : Recorded α) (next : Call α) : Option (Recorded α × Seen α) :=
  let (returned, server, _) := bind record.server next.addrs next.fails
  let established :=
    if returned then record.established ++ opened record.server.made next.addrs
    else record.established
  some ({ server := server, established := established },
    { call := next, returned := returned, established := record.established, socks := server.socks })

/-- The call returned true exactly when every address listens, and has left the established sockets in
place if it returned false. -/
def Seen.Lawful (seen : Seen α) : Prop :=
  (seen.returned = true ↔ AllListening seen.call.addrs) ∧
    (seen.returned = false → ∀ sock ∈ seen.established, sock ∈ seen.socks)

/-- All addresses of the call listen and its vector is empty, or some do not and no socket has been
established before. -/
def Clean (record : Recorded α) (next : Call α) : Prop :=
  if AllListening next.addrs then next.fails = [] else record.established = []

/-- **One call is lawful** exactly when it is clean. -/
theorem lawful_iff {record : Recorded α} {label : Call α} {next : Recorded α × Seen α}
    (stepped : call record label = some next) : next.2.Lawful ↔ Clean record label := by
  rcases bind_spec record.server label.addrs label.fails with ⟨empty, all, bound⟩ | ⟨failed, bound⟩
  · simp only [call, bound, Option.some.injEq] at stepped
    cases stepped
    simp [Seen.Lawful, Clean, all, empty]
  · simp only [call, bound, Option.some.injEq] at stepped
    cases stepped
    by_cases all : AllListening label.addrs
    · have filled : label.fails ≠ [] := fun empty => failed ⟨empty, all⟩
      simp [Seen.Lawful, Clean, all, filled]
    · simp [Seen.Lawful, Clean, all, List.eq_nil_iff_forall_not_mem]

/-- **A run of calls is lawful** exactly when every call is clean. -/
theorem run_lawful_iff (calls : List (Call α)) :
    ∃ final seen, Labelled.trace call { server := new, established := [] } calls =
        some (final, seen) ∧
      ((∀ one ∈ seen, one.Lawful) ↔
        Labelled.Meets call Clean { server := new, established := [] } calls) := by
  have enabled (record : Recorded α) (next : Call α) : ∃ after, call record next = some after :=
    ⟨_, rfl⟩
  obtain ⟨⟨final, seen⟩, executed⟩ :=
    Labelled.exists_trace enabled calls { server := new, established := [] }
  exact ⟨final, seen, executed, Labelled.trace_outputs_iff
    (fun _ _ _ (_ : True) stepped => ⟨trivial, lawful_iff stepped⟩) calls trivial executed⟩

end TcpServer

/-! ### The attempts of `main_fiber` -/

namespace Application

open TcpServer

variable {α : Type*}

/-- What `main_fiber` makes a server from: its addresses, and what becomes of the `i`-th of them in
each attempt. -/
structure HttpServerConf (α : Type*) where
  address : List α
  outcome : Nat → Nat → BindOutcome

/-- The addresses with what becomes of them in the attempt. -/
def HttpServerConf.attempt (conf : HttpServerConf α) (count : Nat) : List (α × BindOutcome) :=
  conf.address.mapIdx fun i addr => (addr, conf.outcome count i)

/-- The `do … while` loop: `count` and the server behind it. -/
def tryBind (conf : HttpServerConf α) (server : TcpServer α) (fails : List α) (count : Nat) :
    Nat × TcpServer α :=
  let (bound, server, fails) := server.bind (conf.attempt count) fails
  if bound then (count, server)
  else if count + 1 < 3 then tryBind conf server fails (count + 1)
  else (count + 1, server)
termination_by 3 - count

/-- One round of `main_fiber`: the server that has been started, or `none` at `exit(0)`. -/
def serve (conf : HttpServerConf α) : Option (TcpServer α) :=
  let (count, server) := tryBind conf new [] 0
  if count ≥ 3 then none else some server.start

/-- `main_fiber`: `m_http_servers`, or `none` at `exit(0)`. -/
def mainFiber (confs : List (HttpServerConf α)) : Option (List (TcpServer α)) :=
  confs.mapM serve

theorem map_attempt (conf : HttpServerConf α) (count : Nat) :
    (conf.attempt count).map (·.1) = conf.address := by
  refine List.ext_getElem? fun i => ?_
  rw [HttpServerConf.attempt, List.getElem?_map, List.getElem?_mapIdx, Option.map_map]
  exact congrFun Option.map_id _

theorem tryBind_of_bound {conf : HttpServerConf α} (server : TcpServer α) {count : Nat}
    (all : AllListening (conf.attempt count)) :
    tryBind conf server [] count = (count, (server.bind (conf.attempt count) []).2.1) := by
  rcases bind_spec server (conf.attempt count) [] with ⟨_, _, bound⟩ | ⟨failed, _⟩
  · rw [tryBind, bound]
    rfl
  · exact absurd ⟨rfl, all⟩ failed

/-- A failed attempt hands its `fails` to the next one. -/
theorem tryBind_of_failed {conf : HttpServerConf α} (server : TcpServer α) {fails : List α}
    {count : Nat} (failed : ¬ (fails = [] ∧ AllListening (conf.attempt count))) :
    ∃ server', tryBind conf server fails count =
      if count + 1 < 3 then tryBind conf server' (fails ++ failing (conf.attempt count)) (count + 1)
      else (count + 1, server') := by
  rcases bind_spec server (conf.attempt count) fails with ⟨empty, all, _⟩ | ⟨_, called⟩
  · exact absurd ⟨empty, all⟩ failed
  · rw [tryBind, called]
    exact ⟨_, rfl⟩

/-- With an address in `fails` every attempt fails. -/
theorem tryBind_of_ne_nil {conf : HttpServerConf α} :
    ∀ (left : Nat) (server : TcpServer α) {fails : List α} {count : Nat}, fails ≠ [] →
      count + left + 1 = 3 → (tryBind conf server fails count).1 = 3
  | 0, server, fails, count, filled, few => by
    obtain ⟨server', failed⟩ := @tryBind_of_failed _ conf server _ count
      fun clean => filled clean.1
    rw [failed, if_neg (by omega)]
    exact few
  | left + 1, server, fails, count, filled, few => by
    obtain ⟨server', failed⟩ := @tryBind_of_failed _ conf server _ count
      fun clean => filled clean.1
    rw [failed, if_pos (by omega)]
    exact tryBind_of_ne_nil left server' (List.append_ne_nil_of_left_ne_nil filled _) (by omega)

/-- **The first attempt decides.** A server that is started accepts on all its addresses. -/
theorem serve_spec (conf : HttpServerConf α) :
    (AllListening (conf.attempt 0) ∧ ∃ server, serve conf = some server ∧
      server.isStop = false ∧ server.accepting.map (·.addr) = conf.address) ∨
    (¬ AllListening (conf.attempt 0) ∧ serve conf = none) := by
  by_cases all : AllListening (conf.attempt 0)
  · refine Or.inl ⟨all, ?_⟩
    rcases bind_spec new (conf.attempt 0) [] with ⟨_, _, bound⟩ | ⟨failed, _⟩
    · rw [serve, tryBind_of_bound new all, bound]
      refine ⟨_, rfl, rfl, ?_⟩
      show (opened 0 (conf.attempt 0)).map (·.addr) = conf.address
      rw [map_opened all, map_attempt]
    · exact absurd ⟨rfl, all⟩ failed
  · refine Or.inr ⟨all, ?_⟩
    obtain ⟨server, failed⟩ := @tryBind_of_failed _ conf new [] 0
      fun clean => all clean.2
    have filled : failing (conf.attempt 0) ≠ [] := fun empty => all (failing_eq_nil.mp empty)
    have last : (tryBind conf new [] 0).1 = 3 := by
      rw [failed]
      exact tryBind_of_ne_nil 1 server filled rfl
    rw [serve]
    dsimp only
    rw [if_pos (Nat.le_of_eq last.symm)]

/-- **An attempt that binds all addresses starts the server** exactly when it is the first one or there
is none. -/
theorem serve_iff (conf : HttpServerConf α) :
    ((∃ count < 3, AllListening (conf.attempt count)) → ∃ server, serve conf = some server ∧
        server.isStop = false ∧ server.accepting.map (·.addr) = conf.address) ↔
      AllListening (conf.attempt 0) ∨ ∀ count < 3, ¬ AllListening (conf.attempt count) := by
  rcases serve_spec conf with ⟨all, started⟩ | ⟨failed, exited⟩
  · exact iff_of_true (fun _ => started) (Or.inl all)
  · constructor
    · intro starts
      refine Or.inr fun count few all => ?_
      obtain ⟨server, started, _⟩ := starts ⟨count, few, all⟩
      rw [exited] at started
      cases started
    · rintro (all | never) ⟨count, few, bound⟩
      · exact absurd all failed
      · exact absurd bound (never count few)

/-- `main_fiber` goes on as long as each server's first attempt binds all its addresses. -/
theorem mainFiber_isSome_iff (confs : List (HttpServerConf α)) :
    (mainFiber confs).isSome ↔ ∀ conf ∈ confs, AllListening (conf.attempt 0) := by
  induction confs with
  | nil => simp [mainFiber]
  | cons conf confs ih =>
      rw [List.forall_mem_cons, ← ih, mainFiber, mainFiber, List.mapM_cons]
      rcases serve_spec conf with ⟨all, server, started, _⟩ | ⟨failed, exited⟩
      · rw [started]
        cases confs.mapM serve <;> simp [all]
      · rw [exited]
        simp [failed]

/-- **`bind` and its retries.** In a run of calls each returns true exactly when it bound all its
addresses, and leaves the sockets of earlier calls in place when it returns false, if and only if no
call that binds all addresses finds something in its vector and no call with a failing address comes
after a call that has established a socket. An attempt of `main_fiber` that binds all addresses starts
the server if and only if it is the first one. -/
theorem bind_lawful_iff :
    (∀ calls : List (Call α), ∃ final seen,
      Labelled.trace call { server := new, established := [] } calls = some (final, seen) ∧
        ((∀ one ∈ seen, one.Lawful) ↔
          Labelled.Meets call Clean { server := new, established := [] } calls)) ∧
    ∀ conf : HttpServerConf α,
      ((∃ count < 3, AllListening (conf.attempt count)) → ∃ server, serve conf = some server ∧
          server.isStop = false ∧ server.accepting.map (·.addr) = conf.address) ↔
        AllListening (conf.attempt 0) ∨ ∀ count < 3, ¬ AllListening (conf.attempt count) :=
  ⟨run_lawful_iff, serve_iff⟩

/-- Two addresses, bound one after the other. -/
def twoCalls : List (Call Nat) :=
  [{ addrs := [(8020, .listening)], fails := [] }, { addrs := [(8021, .bindFails)], fails := [] }]

/-- An address that is free only from the second attempt on. -/
def freeLater : HttpServerConf Nat where
  address := [8020]
  outcome count _ := if count = 0 then .bindFails else .listening

/-- **The second call closes the socket of the first.** And `main_fiber` exits over an address that its
second and its third attempt bind. -/
theorem earlier_socket_closed :
    (∃ final seen, Labelled.trace call { server := new, established := [] } twoCalls =
        some (final, seen) ∧
      ∃ one ∈ seen, one.returned = false ∧ ∃ sock ∈ one.established, sock ∉ one.socks) ∧
    AllListening (freeLater.attempt 1) ∧ serve freeLater = none := by
  refine ⟨⟨_, _, rfl, _, List.mem_cons_of_mem _ List.mem_cons_self, rfl, { id := 0, addr := 8020 },
    List.mem_cons_self, by rintro ⟨⟩⟩, by decide, ?_⟩
  rcases serve_spec freeLater with ⟨all, _⟩ | ⟨_, exited⟩
  · exact absurd all (by decide)
  · exact exited

end Application

end Wyze
