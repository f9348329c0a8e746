/-
**The fd table under concurrent calls of `addEvent`.**

`addEvent` tests the size of the table under the read lock and, when its fd does not fit, resizes
the table in a later critical section without testing again. The two sections are two steps here,
and the entries of the table are pointers to `FdContext`s, so that a context that is dropped from
the table is told apart from the one that takes its place.

`table_stable_iff`: no context is lost in a run exactly when no resize finds the table already
larger than the size it asks for; `context_lost` is a run in which one does.
-/
import Wyze.IOManager.Runs

namespace Wyze

open Labelled

/-- The table of pointers, the number of contexts ever created, and the fds of the `addEvent` calls
that have seen a table too small for them and have yet to resize it. -/
structure FdTable where
  fdContexts : List Nat
  created : Nat
  waiting : List Nat
deriving DecidableEq

namespace FdTable

/-- `contextResize` with new pointers. -/
def contextResize (table : FdTable) (size : Nat) : FdTable :=
  { table with
    fdContexts := Wyze.contextResize (table.created + ·) table.fdContexts size
    created := table.created + size }

/-- The constructor makes room for 32 fds. -/
def new : FdTable :=
  ({ fdContexts := [], created := 0, waiting := [] } : FdTable).contextResize 32

/-- The context that a call finds for an fd. -/
def find (table : FdTable) (fd : Nat) : Option Nat := table.fdContexts[fd]?

/-- A critical section of `m_mutex`: the size test of `addEvent`, the resize of the waiting call with
this index, or the lookup of `delEvent`, `canceEvent` and `canceAll`. -/
inductive Label where
  | test (fd : Nat)
  | resize (index : Nat)
  | lookup (fd : Nat)
deriving DecidableEq

/-- What a section shows: the context found for an fd, that there is none, or that the call has to
resize first. -/
inductive Shown where
  | found (fd ctx : Nat)
  | missing (fd : Nat)
  | waits (fd : Nat)
deriving DecidableEq

/-- Show what is found for an fd. -/
def look (table : FdTable) (fd : Nat) : Shown :=
  match table.find fd with
  | some ctx => .found fd ctx
  | none => .missing fd

def step (table : FdTable) : Label → Option (FdTable × Shown)
  | .test fd =>
    if fd < table.fdContexts.length then some (table, table.look fd)
    else some ({ table with waiting := table.waiting ++ [fd] }, .waits fd)
  | .resize index =>
    table.waiting[index]?.map fun fd =>
      let resized := { table with waiting := table.waiting.eraseIdx index }.contextResize (fd * 3 / 2)
      (resized, resized.look fd)
  | .lookup fd => some (table, table.look fd)

/-- **Nothing is lost** between two moments: the table has not shrunk, and what was found for an fd is
found again. -/
def Stable (first second : FdTable) : Prop :=
  first.fdContexts.length ≤ second.fdContexts.length ∧
    ∀ fd ctx, first.find fd = some ctx → second.find fd = some ctx

/-- The resize does not find a table larger than the size it asks for. -/
def Roomy (table : FdTable) : Label → Prop
  | .resize index => ∀ fd, table.waiting[index]? = some fd →
    table.fdContexts.length ≤ fd * 3 / 2
  | _ => True

instance (table : FdTable) : (label : Label) → Decidable (table.Roomy label)
  | .test _ => .isTrue trivial
  | .resize index =>
    decidable_of_iff (∀ fd ∈ table.waiting[index]?, table.fdContexts.length ≤ fd * 3 / 2) Iff.rfl
  | .lookup _ => .isTrue trivial

theorem Stable.refl (table : FdTable) : table.Stable table := ⟨le_rfl, fun _ _ => id⟩

theorem Stable.trans {first second third : FdTable} (before : first.Stable second)
    (after : second.Stable third) : first.Stable third :=
  ⟨before.1.trans after.1, fun fd ctx found => after.2 fd ctx (before.2 fd ctx found)⟩

/-- A resize leaves a table of the size asked for. -/
theorem contextResize_length (table : FdTable) (size : Nat) :
    (table.contextResize size).fdContexts.length = size := by
  simp only [contextResize, Wyze.contextResize, List.length_append, List.length_take,
    List.length_map, List.length_range']
  omega

theorem contextResize_stable (table : FdTable) (size : Nat) :
    table.Stable (table.contextResize size) ↔ table.fdContexts.length ≤ size := by
  constructor
  · intro stable
    rw [← contextResize_length table size]
    exact stable.1
  · intro grows
    refine ⟨by rwa [contextResize_length], fun fd ctx found => ?_⟩
    obtain ⟨within, _⟩ := List.getElem?_eq_some_iff.mp found
    rw [find, contextResize, IOManager.contextResize_of_le _ grows,
      List.getElem?_append_left within]
    exact found

/-- **One section** loses nothing exactly when it is roomy. -/
theorem step_stable {table : FdTable} {label : Label} {next : FdTable × Shown}
    (stepped : table.step label = some next) : table.Stable next.1 ↔ table.Roomy label := by
  cases label with
  | test fd =>
      rw [step] at stepped
      split at stepped
      · cases stepped
        exact iff_of_true (.refl table) trivial
      · cases stepped
        exact iff_of_true ⟨le_rfl, fun _ _ => id⟩ trivial
  | resize index =>
      obtain ⟨fd, waits, rfl⟩ := Option.map_eq_some_iff.mp stepped
      refine Iff.trans (contextResize_stable
        { table with waiting := table.waiting.eraseIdx index } (fd * 3 / 2)) ?_
      constructor
      · intro roomy fd' waits'
        rw [waits] at waits'
        cases waits'
        exact roomy
      · exact fun roomy => roomy fd waits
  | lookup fd =>
      cases stepped
      exact iff_of_true (.refl table) trivial

/-- **A context stays the one found for its fd in exactly the runs whose resizes are all roomy.** -/
theorem table_stable_iff (labels : List Label) {final : FdTable} {shown : List Shown}
    (executed : trace step new labels = some (final, shown)) :
    (∀ before between after first second front back, labels = before ++ between ++ after →
      trace step new before = some (first, front) →
      trace step first between = some (second, back) → first.Stable second) ↔
      Meets step Roomy new labels :=
  related_iff_meets .refl (fun _ _ _ => .trans)
    (fun _ _ _ (_ : True) stepped => ⟨trivial, step_stable stepped⟩) labels trivial executed

/-- Two calls that wait at the same time, the one for the larger fd resizing last. -/
theorem table_stable_ordered :
    ∃ final shown, trace step new [.test 40, .test 100, .resize 0, .resize 0, .lookup 40] =
      some (final, shown) ∧ new.Stable final := by
  have executed : trace step new [.test 40, .test 100, .resize 0, .resize 0, .lookup 40] =
      some (_, _) := rfl
  exact ⟨_, _, executed, (table_stable_iff _ executed).mpr (by decide +kernel) [] _ [] _ _ _ _ rfl rfl
    executed⟩

/-- **A context is lost.** Both calls see a table of 32 entries; the call for fd 100 makes it 150 and
gets its context, the call for fd 40 then cuts it to 60, and fd 100 is no longer found. -/
theorem context_lost :
    (trace step new [.test 100, .test 40, .resize 0, .resize 0, .lookup 100]).map Prod.snd =
      some [.waits 100, .waits 40, .found 100 132, .found 40 72, .missing 100] := by
  decide +kernel

end FdTable

end Wyze
