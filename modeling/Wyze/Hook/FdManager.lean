/-
**The table of fd contexts as a map over all fds.**

`get` and `del` hold the lock of `FdManager` from end to end, so a run of any number of threads is a
list of calls. The table has 1024 entries and is never resized; `get` with `auto_create` tests
whether its fd fits, and then writes to the entry in either case. A read or write that falls outside
of the vector ends a run (`none`). Contexts are told apart by the order in which they are made.

`total_map_iff`: a run stays inside of the vector and acts as a map over all fds exactly when every
`get` with `auto_create` is for an fd below 1024; `written_outside` is the first fd above. The map
itself is `FdMap`, which the table refines (`step_refines`).
-/
import Mathlib.Logic.Function.Basic
import Wyze.Lib.Run

namespace Wyze

open Labelled

/-- What is known about an fd. -/
structure FdCtx where
  isInit : Bool
  isSocket : Bool
  sysNonblock : Bool
  userNonblock : Bool
  isClosed : Bool
  fd : Int
  recvTimeout : UInt64
  sendTimeout : UInt64
deriving DecidableEq

namespace FdCtx

/-- `fstat` fails (`none`) or says whether the fd is a socket. -/
def init (ctx : FdCtx) (stat : Option Bool) : FdCtx :=
  if ctx.isInit then ctx
  else
    let cleared := { ctx with
      recvTimeout := -1
      sendTimeout := -1
      isClosed := false
      userNonblock := false }
    match stat with
    | none => cleared
    | some isSocket =>
      { cleared with
        isSocket := isSocket
        sysNonblock := isSocket
        isInit := false }

def new (fd : Int) (stat : Option Bool) : FdCtx :=
  ({ isInit := false
     isSocket := false
     sysNonblock := false
     userNonblock := false
     isClosed := false
     fd := fd
     recvTimeout := -1
     sendTimeout := -1 } : FdCtx).init stat

@[simp]
theorem new_fd (fd : Int) (stat : Option Bool) : (new fd stat).fd = fd := by
  cases stat <;> rfl

end FdCtx

/-- The vector of pointers, and the contexts ever made: a pointer is an index into them. -/
structure FdManager where
  datas : List (Option Nat)
  contexts : List FdCtx
deriving DecidableEq

namespace FdManager

/-- The constructor makes room for 1024 fds. -/
def new : FdManager := { datas := List.replicate 1024 none, contexts := [] }

/-- A call by some thread. -/
inductive Call where
  | get (fd : Int) (autoCreate : Bool)
  | del (fd : Int)
deriving DecidableEq

def Call.fd : Call → Int
  | .get fd _ => fd
  | .del fd => fd

/-- The read `m_datas[fd]`. -/
def read (manager : FdManager) (fd : Int) : Option (Option Nat) :=
  if 0 ≤ fd then manager.datas[fd.toNat]? else none

/-- The write `m_datas[fd] = ptr`. -/
def write (manager : FdManager) (fd : Int) (ptr : Option Nat) : Option FdManager :=
  (manager.read fd).map fun _ => { manager with datas := manager.datas.set fd.toNat ptr }

section

-- What `fstat` says about an fd when the context of this number is made for it.
variable (fstat : Nat → Int → Option Bool)

/-- Make a context and put it into the table, whether or not it fits. -/
def create (manager : FdManager) (fd : Int) : Option (FdManager × Option Nat) :=
  let ptr := manager.contexts.length
  let grown : FdManager :=
    { manager with contexts := manager.contexts ++ [.new fd (fstat ptr fd)] }
  (grown.write fd (some ptr)).map (·, some ptr)

def get (manager : FdManager) (fd : Int) (autoCreate : Bool) : Option (FdManager × Option Nat) :=
  if fd = -1 then some (manager, none)
  else if autoCreate then
    if manager.datas.length ≤ fd then manager.create fstat fd
    else
      (manager.read fd).bind fun
        | none => manager.create fstat fd
        | some ptr => some (manager, some ptr)
  else if manager.datas.length ≤ fd then some (manager, none)
  else (manager.read fd).map (manager, ·)

def del (manager : FdManager) (fd : Int) : Option FdManager :=
  if manager.datas.length ≤ fd then some manager else manager.write fd none

/-- The state after a call and what it returns; `none` when an access falls outside of `m_datas`. -/
def step (manager : FdManager) : Call → Option (FdManager × Option Nat)
  | .get fd autoCreate => manager.get fstat fd autoCreate
  | .del fd => (manager.del fd).map (·, none)

end

/-- The context of an fd, over all fds. -/
def find (manager : FdManager) (fd : Int) : Option Nat := (manager.read fd).join

/-- **The table acts as a map over all fds** in a run: `get` with `auto_create` returns a context for
its fd, later calls return the same one until it is deleted, after which there is none, and a call
leaves the entries of the other fds and every context made so far as they are. -/
structure ActsAsMap (fstat : Nat → Int → Option Bool) (calls : List Call) (final : FdManager)
    (shown : List (Option Nat)) : Prop where
  returns : ∀ (i : Nat) (fd : Int), calls[i]? = some (Call.get fd true) →
    ∃ (ptr : Nat) (ctx : FdCtx),
      shown[i]? = some (some ptr) ∧ final.contexts[ptr]? = some ctx ∧ ctx.fd = fd
  same : ∀ (i j : Nat) (fd : Int) (autoCreate : Bool), i < j → calls[i]? = some (Call.get fd true) →
    calls[j]? = some (Call.get fd autoCreate) → (∀ k, i < k → k < j → calls[k]? ≠ some (Call.del fd)) →
    shown[j]? = shown[i]?
  gone : ∀ (i j : Nat) (fd : Int), i < j → calls[i]? = some (Call.del fd) →
    calls[j]? = some (Call.get fd false) →
    (∀ k, i < k → k < j → calls[k]? ≠ some (Call.get fd true)) → shown[j]? = some none
  apart : ∀ (i : Nat) (call : Call) state front next, calls[i]? = some call →
    trace (step fstat) new (calls.take i) = some (state, front) →
    step fstat state call = some next →
    (∀ fd, fd ≠ call.fd → next.1.find fd = state.find fd) ∧
      ∀ (ptr : Nat) ctx, state.contexts[ptr]? = some ctx → next.1.contexts[ptr]? = some ctx

end FdManager

/-! ### The map -/

/-- **A map over all fds**, and the contexts ever made. -/
structure FdMap where
  find : Int → Option Nat
  contexts : List FdCtx

namespace FdMap

open FdManager (Call)

variable (fstat : Nat → Int → Option Bool)

/-- No call fails: a context is made for any fd that has none. -/
def step (map : FdMap) : Call → FdMap × Option Nat
  | .get fd false => (map, map.find fd)
  | .get fd true =>
    match map.find fd with
    | some ptr => (map, some ptr)
    | none =>
      let ptr := map.contexts.length
      ({ find := Function.update map.find fd (some ptr)
         contexts := map.contexts ++ [.new fd (fstat ptr fd)] }, some ptr)
  | .del fd => ({ map with find := Function.update map.find fd none }, none)

variable {fstat} {map : FdMap}

theorem step_apart {call : Call} {fd : Int} (other : fd ≠ call.fd) :
    (map.step fstat call).1.find fd = map.find fd := by
  cases call with
  | get fd' autoCreate =>
      cases autoCreate with
      | false => rfl
      | true =>
          rw [step]
          split
          · rfl
          · exact Function.update_of_ne other _ _
  | del fd' => exact Function.update_of_ne other _ _

/-- A context stays as it was made. -/
theorem step_contexts (call : Call) {ptr : Nat} {ctx : FdCtx}
    (made : map.contexts[ptr]? = some ctx) :
    (map.step fstat call).1.contexts[ptr]? = some ctx := by
  cases call with
  | get fd autoCreate =>
      cases autoCreate with
      | false => exact made
      | true =>
          rw [step]
          split
          · exact made
          · rw [List.getElem?_append_left (List.getElem?_eq_some_iff.mp made).1, made]
  | del fd => exact made

/-- What `get` with `auto_create` returns is what is found from then on. -/
theorem step_get_find (fd : Int) :
    ∃ ptr, (map.step fstat (.get fd true)).2 = some ptr ∧
      (map.step fstat (.get fd true)).1.find fd = some ptr := by
  rw [step]
  split
  · exact ⟨_, rfl, ‹_›⟩
  · exact ⟨_, rfl, Function.update_self _ _ _⟩

theorem step_of_find {fd : Int} {ptr : Nat} (found : map.find fd = some ptr) (autoCreate : Bool) :
    map.step fstat (.get fd autoCreate) = (map, some ptr) := by
  cases autoCreate with
  | false => rw [step, found]
  | true => simp only [step, found]

/-- Only `del` ends the entry of an fd. -/
theorem step_keeps_find {fd : Int} {ptr : Nat} {call : Call} (found : map.find fd = some ptr)
    (kept : call ≠ .del fd) : (map.step fstat call).1.find fd = some ptr := by
  by_cases other : fd = call.fd
  · cases call with
    | get fd' autoCreate =>
        obtain rfl : fd = fd' := other
        rw [step_of_find found]
        exact found
    | del fd' => exact absurd (congrArg Call.del other.symm) kept
  · rw [step_apart other, found]

/-- Only `get` with `auto_create` makes one. -/
theorem step_keeps_none {fd : Int} {call : Call} (absent : map.find fd = none)
    (kept : call ≠ .get fd true) : (map.step fstat call).1.find fd = none := by
  by_cases other : fd = call.fd
  · cases call with
    | get fd' autoCreate =>
        obtain rfl : fd = fd' := other
        cases autoCreate with
        | false => exact absent
        | true => exact absurd rfl kept
    | del fd' =>
        obtain rfl : fd = fd' := other
        exact Function.update_self _ _ _
  · rw [step_apart other, absent]

theorem step_del_find (fd : Int) : (map.step fstat (.del fd)).1.find fd = none := by
  simp only [step, Function.update_self]

/-- The entries are contexts of their fds. -/
def Valid (map : FdMap) : Prop :=
  ∀ fd ptr, map.find fd = some ptr → ∃ ctx, map.contexts[ptr]? = some ctx ∧ ctx.fd = fd

theorem step_create {fd : Int} (absent : map.find fd = none) :
    map.step fstat (.get fd true) =
      ({ find := Function.update map.find fd (some map.contexts.length)
         contexts := map.contexts ++ [.new fd (fstat map.contexts.length fd)] },
        some map.contexts.length) := by
  simp only [step, absent]

theorem Valid.step (valid : map.Valid) (call : Call) : (map.step fstat call).1.Valid := by
  intro fd ptr found
  by_cases older : map.find fd = some ptr
  · obtain ⟨ctx, made, isFor⟩ := valid fd ptr older
    exact ⟨ctx, step_contexts call made, isFor⟩
  -- An entry that is new is the one of the call's own fd, which `get` has just made.
  have own : fd = call.fd := by
    by_contra other
    exact older (step_apart other ▸ found)
  cases call with
  | get fd' autoCreate =>
      obtain rfl : fd = fd' := own
      cases autoCreate with
      | false => exact absurd found older
      | true =>
          cases absent : map.find fd with
          | some ptr' =>
              rw [step_of_find absent] at found
              exact absurd found older
          | none =>
              rw [step_create absent] at found ⊢
              obtain rfl : map.contexts.length = ptr :=
                Option.some.inj ((Function.update_self fd _ map.find).symm.trans found)
              exact ⟨_, List.getElem?_concat_length, FdCtx.new_fd _ _⟩
  | del fd' =>
      obtain rfl : fd = fd' := own
      cases (step_del_find fd).symm.trans found

end FdMap

/-! ### The table refines the map -/

namespace FdManager

/-- The map that the table stands for. -/
def toMap (manager : FdManager) : FdMap := { find := manager.find, contexts := manager.contexts }

/-- **The invariant**: the vector keeps its size, and its entries are contexts of their fds. -/
structure Valid (manager : FdManager) : Prop where
  sized : manager.datas.length = 1024
  entries : manager.toMap.Valid

variable {fstat : Nat → Int → Option Bool} {manager : FdManager} {fd : Int}

theorem find_new (fd : Int) : new.find fd = none := by
  rw [find, read]
  split
  · cases placed : new.datas[fd.toNat]? with
    | none => rfl
    | some entry => exact List.eq_of_mem_replicate (List.mem_of_getElem? placed)
  · rfl

theorem new_valid : new.Valid where
  sized := List.length_replicate
  entries := by
    intro fd ptr found
    cases (find_new fd).symm.trans found

/-- Inside of the vector the entry is read. -/
theorem read_eq (sized : manager.datas.length = 1024) (nonneg : 0 ≤ fd) (inside : fd < 1024) :
    manager.read fd = some (manager.find fd) := by
  have within : fd.toNat < manager.datas.length := by omega
  rw [find, read, if_pos nonneg, List.getElem?_eq_getElem within]
  rfl

theorem read_outside (sized : manager.datas.length = 1024) (outside : 1024 ≤ fd) :
    manager.read fd = none := by
  rw [read, if_pos (by omega), List.getElem?_eq_none (by omega)]

theorem find_outside (sized : manager.datas.length = 1024) (outside : 1024 ≤ fd) :
    manager.find fd = none := by
  rw [find, read_outside sized outside]
  rfl

/-- A write inside of the vector updates the map at its fd. -/
theorem write_eq (sized : manager.datas.length = 1024) (nonneg : 0 ≤ fd) (inside : fd < 1024)
    (ptr : Option Nat) :
    ∃ next, manager.write fd ptr = some next ∧ next.datas.length = 1024 ∧
      next.toMap = { find := Function.update manager.find fd ptr, contexts := manager.contexts } := by
  refine ⟨_, by rw [write, read_eq sized nonneg inside]; rfl, ?_, ?_⟩
  · rw [List.length_set, sized]
  · rw [toMap, FdMap.mk.injEq]
    refine ⟨funext fun other => ?_, rfl⟩
    simp only [Function.update_apply, find, read]
    split
    · by_cases same : other = fd
      · subst same
        rw [if_pos rfl, List.getElem?_set_self (by omega)]
        rfl
      · rw [if_neg same, List.getElem?_set_ne (by omega)]
    · rw [if_neg (by omega)]

theorem get_of_find (sized : manager.datas.length = 1024) (nonneg : 0 ≤ fd) {ptr : Nat}
    (found : manager.find fd = some ptr) (autoCreate : Bool) :
    manager.get fstat fd autoCreate = some (manager, some ptr) := by
  have inside : fd < 1024 := by
    by_contra outside
    rw [find_outside sized (by omega)] at found
    cases found
  have within : ¬ (manager.datas.length : Int) ≤ fd := by omega
  rw [get, if_neg (by omega), if_neg within, if_neg within, read_eq sized nonneg inside, found]
  cases autoCreate <;> rfl

theorem get_absent (sized : manager.datas.length = 1024) (nonneg : 0 ≤ fd)
    (absent : manager.find fd = none) : manager.get fstat fd false = some (manager, none) := by
  rw [get, if_neg (by omega), if_neg Bool.false_ne_true]
  split
  · rfl
  · rw [read_eq sized nonneg (by omega), absent]
    rfl

theorem get_create (sized : manager.datas.length = 1024) (nonneg : 0 ≤ fd)
    (absent : manager.find fd = none) : manager.get fstat fd true = manager.create fstat fd := by
  rw [get, if_neg (by omega), if_pos rfl]
  split
  · rfl
  · rw [read_eq sized nonneg (by omega), absent]
    rfl

/-- **The write that `get` does not make room for.** -/
theorem create_outside (sized : manager.datas.length = 1024) (outside : 1024 ≤ fd) :
    manager.create fstat fd = none := by
  have grown : (FdManager.mk manager.datas
      (manager.contexts ++ [.new fd (fstat manager.contexts.length fd)])).read fd = none :=
    read_outside sized outside
  simp only [create, write, grown, Option.map_none]

theorem get_outside (sized : manager.datas.length = 1024) (outside : 1024 ≤ fd) :
    manager.get fstat fd true = none := by
  rw [get_create sized (by omega) (find_outside sized outside), create_outside sized outside]

theorem create_eq (sized : manager.datas.length = 1024) (nonneg : 0 ≤ fd) (inside : fd < 1024)
    (absent : manager.find fd = none) :
    ∃ next, manager.create fstat fd = some next ∧ next.1.datas.length = 1024 ∧
      manager.toMap.step fstat (.get fd true) = (next.1.toMap, next.2) := by
  obtain ⟨next, wrote, kept, maps⟩ := @write_eq
    (.mk manager.datas (manager.contexts ++ [.new fd (fstat manager.contexts.length fd)])) fd
    sized nonneg inside (some manager.contexts.length)
  refine ⟨_, by simp only [create, wrote]; rfl, kept, ?_⟩
  rw [FdMap.step_create absent, maps]
  rfl

theorem del_eq (fstat : Nat → Int → Option Bool) (sized : manager.datas.length = 1024)
    (nonneg : 0 ≤ fd) :
    ∃ next, manager.del fd = some next ∧ next.datas.length = 1024 ∧
      manager.toMap.step fstat (.del fd) = (next.toMap, none) := by
  rw [del]
  split
  · have absent : manager.find fd = none := find_outside sized (by omega)
    refine ⟨manager, rfl, sized, ?_⟩
    have same : Function.update manager.find fd none = manager.find := by
      rw [← absent, Function.update_eq_self]
    simp only [FdMap.step, toMap, same]
  · obtain ⟨next, wrote, kept, maps⟩ := write_eq sized nonneg (by omega) none
    exact ⟨next, wrote, kept, by rw [maps]; rfl⟩

/-- A call that the vector has room for. -/
def Fits : Call → Prop
  | .get fd true => fd < 1024
  | _ => True

theorem fits_of_below {calls : List Call} (below : ∀ fd, Call.get fd true ∈ calls → fd < 1024)
    {call : Call} (member : call ∈ calls) : Fits call := by
  match call with
  | .get fd true => exact below fd member
  | .get _ false => trivial
  | .del _ => trivial

/-- **The table refines the map**: a call for an fd takes the step of the map, unless it makes a
context for an fd that the vector has no room for. -/
theorem step_refines (fstat : Nat → Int → Option Bool) {call : Call} (valid : manager.Valid)
    (nonneg : 0 ≤ call.fd) (fits : Fits call) :
    ∃ next, step fstat manager call = some next ∧ next.1.Valid ∧
      manager.toMap.step fstat call = (next.1.toMap, next.2) := by
  have sized := valid.sized
  suffices refined : ∃ next, step fstat manager call = some next ∧ next.1.datas.length = 1024 ∧
      manager.toMap.step fstat call = (next.1.toMap, next.2) by
    obtain ⟨next, stepped, kept, maps⟩ := refined
    have entries := @FdMap.Valid.step fstat _ valid.entries call
    rw [maps] at entries
    exact ⟨next, stepped, ⟨kept, entries⟩, maps⟩
  cases call with
  | get fd autoCreate =>
      change 0 ≤ fd at nonneg
      cases found : manager.find fd with
      | some ptr =>
          exact ⟨_, get_of_find sized nonneg found autoCreate, sized,
            FdMap.step_of_find found autoCreate⟩
      | none =>
          cases autoCreate with
          | false =>
              refine ⟨_, get_absent sized nonneg found, sized, ?_⟩
              exact congrArg (manager.toMap, ·) found
          | true =>
              rw [step, get_create sized nonneg found]
              exact create_eq sized nonneg fits found
  | del fd =>
      change 0 ≤ fd at nonneg
      obtain ⟨next, deleted, kept, maps⟩ := del_eq fstat sized nonneg
      exact ⟨(next, none), by rw [step, deleted]; rfl, kept, maps⟩

/-- A call without room is the end of the run. -/
theorem step_outside {call : Call} (valid : manager.Valid) (outside : ¬ Fits call) :
    step fstat manager call = none := by
  match call with
  | .get fd true => exact get_outside valid.sized (Int.not_lt.mp outside)
  | .get _ false => exact absurd trivial outside
  | .del _ => exact absurd trivial outside

/-- What a call does, that an fd has room or not. -/
theorem step_eq_some {call : Call} {next : FdManager × Option Nat} (valid : manager.Valid)
    (nonneg : 0 ≤ call.fd) (stepped : step fstat manager call = some next) :
    next.1.Valid ∧ Fits call ∧ manager.toMap.step fstat call = (next.1.toMap, next.2) := by
  by_cases fits : Fits call
  · obtain ⟨next', stepped', kept, maps⟩ := step_refines fstat valid nonneg fits
    rw [stepped] at stepped'
    cases stepped'
    exact ⟨kept, fits, maps⟩
  · rw [step_outside valid fits] at stepped
    cases stepped

/-- What `get` with `auto_create` returns is what is found after it. -/
theorem step_get_find {next : FdManager × Option Nat} (valid : manager.Valid)
    (nonneg : 0 ≤ (Call.get fd true).fd)
    (stepped : step fstat manager (.get fd true) = some next) :
    ∃ ptr, next.2 = some ptr ∧ next.1.toMap.find fd = some ptr := by
  obtain ⟨_, _, maps⟩ := step_eq_some valid nonneg stepped
  have made := @FdMap.step_get_find fstat manager.toMap fd
  rwa [maps] at made

/-! ### Runs -/

variable {calls : List Call} {final : FdManager} {shown : List (Option Nat)}

/-- What a call keeps of a table that meets `holds`, read off the map. -/
theorem keeps_of_map {holds : FdMap → Prop} {allowed : Call → Prop}
    (keeps : ∀ map call, holds map → allowed call → holds (map.step fstat call).1) (state : FdManager)
    (call : Call) (next : FdManager × Option Nat) (before : state.Valid ∧ holds state.toMap)
    (may : 0 ≤ call.fd ∧ allowed call) (stepped : step fstat state call = some next) :
    next.1.Valid ∧ holds next.1.toMap := by
  obtain ⟨kept, _, maps⟩ := step_eq_some before.1 may.1 stepped
  have after := keeps state.toMap call before.2 may.2
  rw [maps] at after
  exact ⟨kept, after⟩

/-- Where the call at a position is executed: the state before it is valid, the call fits, and its step
is the one of the map. -/
theorem executed_at (nonneg : ∀ call ∈ calls, 0 ≤ call.fd)
    (executed : trace (step fstat) new calls = some (final, shown)) {i : Nat} {call : Call}
    (placed : calls[i]? = some call) :
    ∃ front state next, trace (step fstat) new (calls.take i) = some (state, front) ∧
      state.Valid ∧ step fstat state call = some next ∧ shown[i]? = some next.2 ∧
      trace (step fstat) next.1 (calls.drop (i + 1)) = some (final, shown.drop (i + 1)) := by
  have keeps : ∀ (state : FdManager) (label : Call) (next : FdManager × Option Nat),
      state.Valid → 0 ≤ label.fd → step fstat state label = some next → next.1.Valid :=
    fun _ _ _ before may stepped => (step_eq_some before may stepped).1
  exact holds_at keeps calls new_valid executed placed
    fun k _ other there => nonneg other (List.mem_of_getElem? there)

/-- What one call brings about and the calls in between keep holds where a later call is executed. -/
theorem executed_since (holds : FdMap → Prop) (allowed : Call → Prop)
    (keeps : ∀ map call, holds map → allowed call → holds (map.step fstat call).1)
    (nonneg : ∀ call ∈ calls, 0 ≤ call.fd) {i j : Nat} {next : FdManager}
    (start : next.Valid ∧ holds next.toMap)
    (executed : trace (step fstat) next (calls.drop (i + 1)) = some (final, shown.drop (i + 1)))
    (earlier : i < j) {call : Call} (placed : calls[j]? = some call)
    (between : ∀ k, i < k → k < j → ∀ other, calls[k]? = some other → allowed other) :
    ∃ state last, state.Valid ∧ holds state.toMap ∧ step fstat state call = some last ∧
      shown[j]? = some last.2 := by
  obtain ⟨distance, rfl⟩ := Nat.exists_eq_add_of_lt earlier
  rw [Nat.add_right_comm, ← List.getElem?_drop] at placed ⊢
  obtain ⟨_, state, last, _, ⟨valid, held⟩, stepped, shows, _⟩ := holds_at (keeps_of_map keeps) _
    start executed placed fun k less other there => by
      rw [List.getElem?_drop] at there
      exact ⟨nonneg other (List.mem_of_getElem? there), between _ (by omega) (by omega) other there⟩
  exact ⟨state, last, valid, held, stepped, shows⟩

/-- A context that is returned is there to the end of the run. -/
theorem contexts_kept {ptr : Nat} {ctx : FdCtx} :
    ∀ {calls : List Call} {state : FdManager} {shown : List (Option Nat)},
      (∀ call ∈ calls, 0 ≤ call.fd) → state.Valid → state.contexts[ptr]? = some ctx →
      trace (step fstat) state calls = some (final, shown) → final.contexts[ptr]? = some ctx
  | [], _, _, _, _, made, executed => by
      cases executed
      exact made
  | call :: calls, state, _, nonneg, valid, made, executed => by
      obtain ⟨isFd, later⟩ := List.forall_mem_cons.mp nonneg
      obtain ⟨next, output, rest, stepped, tail, _⟩ := trace_cons_eq_some.mp executed
      obtain ⟨kept, _, maps⟩ := step_eq_some valid isFd stepped
      have made' := @FdMap.step_contexts fstat state.toMap call ptr ctx made
      rw [maps] at made'
      exact contexts_kept later kept made' tail

/-- **Calls that fit are a run of the map**: none fails, and all return what the map returns. -/
theorem trace_eq_map (fstat : Nat → Int → Option Bool)
    (fit : ∀ call ∈ calls, 0 ≤ call.fd ∧ Fits call) :
    ∃ final shown, trace (step fstat) new calls = some (final, shown) ∧ final.Valid ∧
      trace (fun map call => some (FdMap.step fstat map call)) new.toMap calls =
        some (final.toMap, shown) := by
  refine trace_refines toMap (fun state call valid may => ?_) calls new new_valid fit
  obtain ⟨next, stepped, kept, maps⟩ := step_refines fstat valid may.1 may.2
  exact ⟨next.1, next.2, stepped, kept, congrArg some maps⟩

/-- **A run that stays inside of the vector acts as a map.** -/
theorem actsAsMap (nonneg : ∀ call ∈ calls, 0 ≤ call.fd)
    (executed : trace (step fstat) new calls = some (final, shown)) :
    ActsAsMap fstat calls final shown where
  returns := by
    intro i fd placed
    obtain ⟨_, state, next, _, valid, stepped, shows, rest⟩ := executed_at nonneg executed placed
    have isFd := nonneg _ (List.mem_of_getElem? placed)
    obtain ⟨kept, _⟩ := step_eq_some valid isFd stepped
    obtain ⟨ptr, returned, found⟩ := step_get_find valid isFd stepped
    obtain ⟨ctx, made, isFor⟩ := kept.entries fd ptr found
    refine ⟨ptr, ctx, by rw [shows, returned], ?_, isFor⟩
    exact contexts_kept (fun call member => nonneg call (List.mem_of_mem_drop member)) kept made rest
  same := by
    intro i j fd autoCreate earlier first second between
    obtain ⟨_, state, next, _, valid, stepped, shows, rest⟩ := executed_at nonneg executed first
    have isFd := nonneg _ (List.mem_of_getElem? first)
    obtain ⟨kept, _⟩ := step_eq_some valid isFd stepped
    obtain ⟨ptr, returned, found⟩ := step_get_find valid isFd stepped
    obtain ⟨state', last, valid', found', stepped', shows'⟩ :=
      executed_since (fun map => map.find fd = some ptr) (· ≠ .del fd)
        (fun map call => FdMap.step_keeps_find) nonneg ⟨kept, found⟩ rest earlier second
        fun k after before other there same => between k after before (same ▸ there)
    obtain ⟨_, _, maps'⟩ := step_eq_some valid' (nonneg _ (List.mem_of_getElem? second)) stepped'
    rw [FdMap.step_of_find found'] at maps'
    rw [shows, shows', returned, ← congrArg Prod.snd maps']
  gone := by
    intro i j fd earlier first second between
    obtain ⟨_, state, next, _, valid, stepped, shows, rest⟩ := executed_at nonneg executed first
    obtain ⟨kept, _, maps⟩ := step_eq_some valid (nonneg _ (List.mem_of_getElem? first)) stepped
    have absent : (state.toMap.step fstat (.del fd)).1.find fd = none := FdMap.step_del_find fd
    rw [maps] at absent
    obtain ⟨state', last, valid', absent', stepped', shows'⟩ :=
      executed_since (fun map => map.find fd = none) (· ≠ .get fd true)
        (fun map call => FdMap.step_keeps_none) nonneg ⟨kept, absent⟩ rest earlier second
        fun k after before other there same => between k after before (same ▸ there)
    obtain ⟨_, _, maps'⟩ := step_eq_some valid' (nonneg _ (List.mem_of_getElem? second)) stepped'
    rw [shows', ← absent', ← congrArg Prod.snd maps']
    rfl
  apart := by
    intro i call state front next placed taken stepped
    obtain ⟨_, state', _, taken', valid, _⟩ := executed_at nonneg executed placed
    rw [taken] at taken'
    cases taken'
    obtain ⟨_, _, maps⟩ := step_eq_some valid (nonneg _ (List.mem_of_getElem? placed)) stepped
    constructor
    · intro fd other
      have same := @FdMap.step_apart fstat state.toMap call fd other
      rwa [maps] at same
    · intro ptr ctx made
      have later := @FdMap.step_contexts fstat state.toMap call ptr ctx made
      rwa [maps] at later

/-- **The table stays inside of its vector and acts as a map over all fds exactly when no context is
made for an fd from 1024 on.** -/
theorem total_map_iff (fstat : Nat → Int → Option Bool) (calls : List Call)
    (nonneg : ∀ call ∈ calls, 0 ≤ call.fd) :
    (∃ final shown, trace (step fstat) new calls = some (final, shown) ∧
      ActsAsMap fstat calls final shown) ↔
      ∀ fd, Call.get fd true ∈ calls → fd < 1024 := by
  constructor
  · rintro ⟨final, shown, executed, _⟩ fd member
    obtain ⟨i, placed⟩ := List.getElem?_of_mem member
    obtain ⟨_, state, next, _, valid, stepped, _⟩ := executed_at nonneg executed placed
    exact (step_eq_some valid (nonneg _ member) stepped).2.1
  · intro below
    obtain ⟨final, shown, executed, _⟩ := trace_eq_map fstat fun call member =>
      ⟨nonneg call member, fits_of_below below member⟩
    exact ⟨final, shown, executed, actsAsMap nonneg executed⟩

/-- Two sockets, one of them closed, and a look at an fd that does not fit. -/
theorem total_map_below :
    ∃ final shown, trace (step fun _ _ => some true) new
        [.get 3 true, .get 1023 true, .del 3, .get 3 false, .get 1024 false] =
        some (final, shown) ∧
      ActsAsMap (fun _ _ => some true)
        [.get 3 true, .get 1023 true, .del 3, .get 3 false, .get 1024 false] final shown := by
  refine (total_map_iff (fun _ _ => some true) _ (by decide)).mpr fun fd member => ?_
  simp only [List.mem_cons, Call.get.injEq, and_true, reduceCtorEq, Bool.true_eq_false, and_false,
    List.not_mem_nil, or_false] at member
  omega

/-- **The write outside of the vector**, for the first socket whose fd is 1024. -/
theorem written_outside :
    ¬ ∃ final shown, trace (step fun _ _ => some true) new [.get 1024 true] =
      some (final, shown) := by
  rintro ⟨final, shown, executed⟩
  have outside : trace (step fun _ _ => some true) new [.get 1024 true] = none := by decide +kernel
  rw [outside] at executed
  cases executed

end FdManager

end Wyze
