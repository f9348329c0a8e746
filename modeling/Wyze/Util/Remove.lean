/-
**`FSUtil::Rm`.**

`Rm` goes down a tree of directories and takes away what it finds; it looks at one bit of `st_mode`, and
so takes sockets and block devices for directories that it cannot open. What it returns for a directory
is that of the last entry, unless `rmdir` fails.

* `rm_gone_iff`, `rm_returns_iff`: both are exactly whether everything can be removed.
* `rm_exact`: **`Rm` returns true exactly when nothing is left, unless the directory of the path cannot be
  gone into, and what is left is exactly what it could not come to or could not take away**.
-/
import Mathlib.Data.List.Basic

namespace Wyze.FSUtil

/-- What is not a directory. -/
inductive Kind where
  | fifo
  | character
  | block
  | regular
  | link
  | socket
  deriving DecidableEq

/-- `S_IFDIR`. -/
def sIfDir : Nat := 0o040000

/-- The type bits of `st_mode`. -/
def Kind.mode : Kind → Nat
  | .fifo => 0o010000
  | .character => 0o020000
  | .block => 0o060000
  | .regular => 0o100000
  | .link => 0o120000
  | .socket => 0o140000

/-- What the process may do in a directory: list it, change it, and go into it. -/
structure Perm where
  read : Bool
  write : Bool
  search : Bool
  deriving DecidableEq

mutual

/-- A file or a directory; what is pinned, the kernel does not remove whatever the permissions are, as a
mount point. -/
inductive Node where
  | file (kind : Kind) (pinned : Bool)
  | dir (perm : Perm) (pinned : Bool) (entries : Entries)

/-- The entries of a directory without `.` and `..`, as `readdir` gives them. -/
inductive Entries where
  | nil
  | cons (name : String) (node : Node) (rest : Entries)

end

def Entries.isEmpty : Entries → Bool
  | .nil => true
  | .cons .. => false

/-- `::unlink` and `::rmdir` of an entry of the directory. -/
def takeAway (parent : Perm) (pinned : Bool) : Bool := parent.write && parent.search && !pinned

mutual

/-- `Rm` of an entry of a directory: what it returns, and what is left. -/
def rm (parent : Perm) : Node → Bool × Option Node
  | .file kind pinned =>
    -- `lstat` fails, or the kind is one that `opendir` fails on
    if !parent.search then (true, some (.file kind pinned))
    else if kind.mode &&& sIfDir = 0 then
      if takeAway parent pinned then (true, none) else (false, some (.file kind pinned))
    else (false, some (.file kind pinned))
  | .dir perm pinned entries =>
    if !parent.search then (true, some (.dir perm pinned entries))
    else if !perm.read then (false, some (.dir perm pinned entries))
    else
      let (ret, left) := rmEntries perm true entries
      if takeAway parent pinned && left.isEmpty then (ret, none) else (false, some (.dir perm pinned left))

/-- The loop over the entries. -/
def rmEntries (perm : Perm) (ret : Bool) : Entries → Bool × Entries
  | .nil => (ret, .nil)
  | .cons name node rest =>
    let (ret, here) := rm perm node
    let (ret, left) := rmEntries perm ret rest
    (ret, match here with
      | none => left
      | some node => .cons name node left)

end

mutual

/-- Everything below can be removed: it is in directories that may be listed, gone into and changed, it
is not pinned, and it is of a kind that is not mistaken. -/
def Removable (parent : Perm) : Node → Prop
  | .file kind pinned => takeAway parent pinned = true ∧ kind.mode &&& sIfDir = 0
  | .dir perm pinned entries =>
    takeAway parent pinned = true ∧ perm.read = true ∧ AllRemovable perm entries

def AllRemovable (perm : Perm) : Entries → Prop
  | .nil => True
  | .cons _ node rest => Removable perm node ∧ AllRemovable perm rest

end

mutual

/-- There is something at the path. -/
def Has : Node → List String → Prop
  | _, [] => True
  | .file _ _, _ :: _ => False
  | .dir _ _ entries, name :: path => HasEntry entries name path

def HasEntry : Entries → String → List String → Prop
  | .nil, _, _ => False
  | .cons name node rest, other, path => name = other ∧ Has node path ∨ HasEntry rest other path

end

mutual

/-- The path leads through directories that may be listed and gone into to something that can be
removed. -/
def Goes (parent : Perm) : Node → List String → Prop
  | node, [] => Removable parent node
  | .file _ _, _ :: _ => False
  | .dir perm _ entries, name :: path =>
    parent.search = true ∧ perm.read = true ∧ EntryGoes perm entries name path

def EntryGoes (perm : Perm) : Entries → String → List String → Prop
  | .nil, _, _ => False
  | .cons name node rest, other, path => name = other ∧ Goes perm node path ∨ EntryGoes perm rest other path

end

mutual

/-- No directory has two entries of a name. -/
def Distinct : Node → Prop
  | .file _ _ => True
  | .dir _ _ entries => AllDistinct entries

def AllDistinct : Entries → Prop
  | .nil => True
  | .cons name node rest => Distinct node ∧ ¬ HasEntry rest name [] ∧ AllDistinct rest

end

/-! ### What is returned -/

theorem search_of_takeAway {parent : Perm} {pinned : Bool} (may : takeAway parent pinned = true) :
    parent.search = true := by
  unfold takeAway at may
  rw [Bool.and_eq_true, Bool.and_eq_true] at may
  exact may.1.2

theorem search_of_removable {parent : Perm} {node : Node} (removable : Removable parent node) :
    parent.search = true := by
  cases node with
  | file kind pinned => exact search_of_takeAway removable.1
  | dir perm pinned entries => exact search_of_takeAway removable.1

theorem isEmpty_iff {entries : Entries} : entries.isEmpty = true ↔ entries = .nil := by
  cases entries with
  | nil => exact iff_of_true rfl rfl
  | cons name node rest => exact iff_of_false nofun nofun

mutual

/-- **Nothing is left** exactly when everything can be removed. -/
theorem rm_gone_iff (parent : Perm) : ∀ node, (rm parent node).2 = none ↔ Removable parent node
  | .file kind pinned => by
    unfold rm Removable
    cases search : parent.search with
    | false =>
        refine iff_of_false nofun fun removable => ?_
        exact nomatch search.symm.trans (search_of_takeAway removable.1)
    | true =>
        by_cases mode : kind.mode &&& sIfDir = 0
        · cases may : takeAway parent pinned <;> simp [mode]
        · simp [mode]
  | .dir perm pinned entries => by
    have below := rmEntries_gone_iff perm true entries
    unfold rm Removable
    cases search : parent.search with
    | false =>
        refine iff_of_false nofun fun removable => ?_
        exact nomatch search.symm.trans (search_of_takeAway removable.1)
    | true =>
        cases perm.read with
        | false => exact iff_of_false nofun fun removable => nomatch removable.2.1
        | true =>
            rw [← below, ← isEmpty_iff]
            cases takeAway parent pinned <;>
              cases empty : (rmEntries perm true entries).2.isEmpty <;> simp [empty]

theorem rmEntries_gone_iff (perm : Perm) (ret : Bool) :
    ∀ entries, (rmEntries perm ret entries).2 = .nil ↔ AllRemovable perm entries
  | .nil => iff_of_true rfl trivial
  | .cons name node rest => by
    have here := rm_gone_iff perm node
    have later := rmEntries_gone_iff perm (rm perm node).1 rest
    unfold rmEntries AllRemovable
    rw [← here, ← later]
    dsimp only
    cases (rm perm node).2 <;> simp

end

mutual

theorem rm_returns (parent : Perm) :
    ∀ node, Removable parent node → (rm parent node).1 = true
  | .file kind pinned, removable => by
    have search := search_of_takeAway removable.1
    unfold rm
    simp [search, removable.1, removable.2]
  | .dir perm pinned entries, removable => by
    have search := search_of_takeAway removable.1
    have gone := isEmpty_iff.mpr ((rmEntries_gone_iff perm true entries).mpr removable.2.2)
    have returns := rmEntries_returns perm entries removable.2.2
    unfold rm
    simp [search, removable.1, removable.2.1, gone, returns]

/-- What the last entry returns is what the loop returns; when all are gone, this is true. -/
theorem rmEntries_returns (perm : Perm) :
    ∀ entries, AllRemovable perm entries → (rmEntries perm true entries).1 = true
  | .nil, _ => rfl
  | .cons name node rest, all => by
    unfold rmEntries
    dsimp only
    rw [rm_returns perm node all.1]
    exact rmEntries_returns perm rest all.2

end

/-- Whatever the entries have returned: `rmdir` fails while there is one. -/
theorem rm_left {parent : Perm} (search : parent.search = true) {node : Node}
    (left : (rm parent node).2 ≠ none) : (rm parent node).1 = false := by
  unfold rm at left ⊢
  cases node with
  | file kind pinned =>
      by_cases mode : kind.mode &&& sIfDir = 0
      · cases may : takeAway parent pinned <;> simp_all
      · simp [search, mode]
  | dir perm pinned entries =>
      cases read : perm.read with
      | false => simp [search, read]
      | true =>
          cases gone : takeAway parent pinned && (rmEntries perm true entries).2.isEmpty with
          | false => simp [search, read, gone]
          | true => simp [search, read, gone] at left

/-- **What `Rm` returns.** -/
theorem rm_returns_iff {parent : Perm} (search : parent.search = true) (node : Node) :
    (rm parent node).1 = true ↔ Removable parent node := by
  constructor
  · intro returned
    refine (rm_gone_iff parent node).mp ?_
    by_contra left
    exact nomatch returned.symm.trans (rm_left search left)
  · exact rm_returns parent node

/-! ### What is left -/

mutual

/-- What can be removed goes with all that is below. -/
theorem goes_of_removable (parent : Perm) :
    ∀ node path, Removable parent node → Has node path → Goes parent node path
  | _, [], removable, _ => by
    unfold Goes
    exact removable
  | .file kind pinned, name :: path, _, has => by
    unfold Has at has
    exact has.elim
  | .dir perm pinned entries, name :: path, removable, has => by
    unfold Has at has
    unfold Goes
    exact ⟨search_of_removable removable, removable.2.1,
      entryGoes_of_removable perm entries name path removable.2.2 has⟩

theorem entryGoes_of_removable (perm : Perm) :
    ∀ entries other path, AllRemovable perm entries → HasEntry entries other path →
      EntryGoes perm entries other path
  | .nil, _, _, _, has => has.elim
  | .cons name node rest, other, path, all, has => by
    unfold HasEntry at has
    unfold EntryGoes
    exact has.imp (fun here => ⟨here.1, goes_of_removable perm node path all.1 here.2⟩)
      (entryGoes_of_removable perm rest other path all.2)

end

/-- What is left has a path. -/
def HasLeft : Option Node → List String → Prop
  | none, _ => False
  | some node, path => Has node path

theorem has_nil (node : Node) : Has node [] := by
  unfold Has
  trivial

/-- What is below an entry is below a name. -/
theorem hasEntry_name : ∀ {entries : Entries} {name : String} {path : List String},
    HasEntry entries name path → HasEntry entries name []
  | .nil, _, _, has => has
  | .cons _ node rest, _, _, has => by
    unfold HasEntry at has ⊢
    exact has.imp (fun here => ⟨here.1, has_nil node⟩) hasEntry_name

theorem hasEntry_of_goes {perm : Perm} : ∀ {entries : Entries} {name : String} {path : List String},
    EntryGoes perm entries name path → HasEntry entries name []
  | .nil, _, _, goes => goes
  | .cons _ node rest, _, _, goes => by
    unfold EntryGoes at goes
    unfold HasEntry
    exact goes.imp (fun here => ⟨here.1, has_nil node⟩) hasEntry_of_goes

theorem rm_file (parent : Perm) (kind : Kind) (pinned : Bool) :
    (rm parent (.file kind pinned)).2 = none ∨
      (rm parent (.file kind pinned)).2 = some (.file kind pinned) := by
  unfold rm
  cases parent.search with
  | false => exact Or.inr rfl
  | true =>
      by_cases mode : kind.mode &&& sIfDir = 0
      · cases takeAway parent pinned <;> simp [mode]
      · simp [mode]

/-- A directory that is gone into: it is gone with all that was in it, or has what the loop has left. -/
theorem rm_dir {parent perm : Perm} (search : parent.search = true) (read : perm.read = true)
    (pinned : Bool) (entries : Entries) :
    ((rm parent (.dir perm pinned entries)).2 = none ∧ (rmEntries perm true entries).2 = .nil) ∨
      (rm parent (.dir perm pinned entries)).2 =
        some (.dir perm pinned (rmEntries perm true entries).2) := by
  unfold rm
  cases gone : takeAway parent pinned && (rmEntries perm true entries).2.isEmpty with
  | false => simp [search, read, gone]
  | true =>
      rw [Bool.and_eq_true, isEmpty_iff] at gone
      simp [search, read, gone.1, gone.2, Entries.isEmpty]

theorem hasEntry_cons (name : String) (node : Node) (rest : Entries) (other : String)
    (path : List String) : HasEntry (.cons name node rest) other path ↔
      name = other ∧ Has node path ∨ HasEntry rest other path := by
  rw [HasEntry]

theorem entryGoes_cons (perm : Perm) (name : String) (node : Node) (rest : Entries) (other : String)
    (path : List String) : EntryGoes perm (.cons name node rest) other path ↔
      name = other ∧ Goes perm node path ∨ EntryGoes perm rest other path := by
  rw [EntryGoes]

/-- What the loop has left of the first entry is in front of what it has left of the others. -/
theorem hasEntry_rmEntries (perm : Perm) (ret : Bool) (name : String) (node : Node) (rest : Entries)
    (other : String) (path : List String) :
    HasEntry (rmEntries perm ret (.cons name node rest)).2 other path ↔
      name = other ∧ HasLeft (rm perm node).2 path ∨
        HasEntry (rmEntries perm (rm perm node).1 rest).2 other path := by
  rw [rmEntries]
  dsimp only
  cases (rm perm node).2 with
  | none =>
      unfold HasLeft
      rw [and_false, false_or]
  | some left => exact hasEntry_cons name left _ other path

mutual

/-- **What is left** is what was there and did not go. -/
theorem rm_has_iff (parent : Perm) : ∀ node path, Distinct node →
    (HasLeft (rm parent node).2 path ↔ Has node path ∧ ¬ Goes parent node path)
  | node, [], _ => by
    have gone := rm_gone_iff parent node
    unfold Goes
    cases left : (rm parent node).2 with
    | none => exact iff_of_false id fun both => both.2 (gone.mp left)
    | some rest =>
        refine iff_of_true (has_nil rest) ⟨has_nil node, fun removable => ?_⟩
        exact nomatch left.symm.trans (gone.mpr removable)
  | .file kind pinned, name :: path, _ => by
    have nothing : ¬ Has (.file kind pinned) (name :: path) := by
      unfold Has
      exact id
    rcases rm_file parent kind pinned with left | left
    · rw [left]
      exact iff_of_false id fun both => nothing both.1
    · rw [left]
      exact iff_of_false nothing fun both => nothing both.1
  | .dir perm pinned entries, name :: path, distinct => by
    have below := rmEntries_has_iff perm true entries name path distinct
    by_cases enters : parent.search = true ∧ perm.read = true
    · have same : (Has (.dir perm pinned entries) (name :: path) ∧
          ¬ Goes parent (.dir perm pinned entries) (name :: path)) ↔
          HasEntry (rmEntries perm true entries).2 name path := by
        rw [below]
        unfold Has Goes
        simp only [enters, true_and]
      rw [same]
      rcases rm_dir enters.1 enters.2 pinned entries with ⟨left, nothing⟩ | left
      · rw [left, nothing]
        exact Iff.rfl
      · rw [left]
        unfold HasLeft Has
        exact Iff.rfl
    · have untouched : (rm parent (.dir perm pinned entries)).2 = some (.dir perm pinned entries) := by
        unfold rm
        cases search : parent.search with
        | false => rfl
        | true =>
            cases read : perm.read with
            | false => rfl
            | true => exact absurd ⟨search, read⟩ enters
      rw [untouched]
      refine ⟨fun has => ⟨has, fun goes => ?_⟩, And.left⟩
      unfold Goes at goes
      exact enters ⟨goes.1, goes.2.1⟩

theorem rmEntries_has_iff (perm : Perm) (ret : Bool) : ∀ entries name path, AllDistinct entries →
    (HasEntry (rmEntries perm ret entries).2 name path ↔
      HasEntry entries name path ∧ ¬ EntryGoes perm entries name path)
  | .nil, _, _, _ => iff_of_false id And.left
  | .cons name node rest, other, path, distinct => by
    have here := rm_has_iff perm node path distinct.1
    have later := rmEntries_has_iff perm (rm perm node).1 rest other path distinct.2.2
    rw [hasEntry_rmEntries, here, later, hasEntry_cons, entryGoes_cons]
    by_cases same : name = other
    · subst same
      have noEntry : ¬ HasEntry rest name path := fun has => distinct.2.1 (hasEntry_name has)
      have noGoes : ¬ EntryGoes perm rest name path := fun goes =>
        distinct.2.1 (hasEntry_of_goes goes)
      simp only [noEntry, noGoes, true_and, false_and, or_false]
    · simp only [same, false_and, false_or]

end

/-- What cannot be looked at, `Rm` takes for gone. -/
theorem rm_hidden {parent : Perm} (hidden : parent.search = false) (node : Node) :
    rm parent node = (true, some node) := by
  unfold rm
  cases node with
  | file kind pinned => simp [hidden]
  | dir perm pinned entries => simp [hidden]

/-- **`Rm`** of something in a directory that can be gone into returns true exactly when nothing is left,
and this is when everything below can be removed; in one that cannot be gone into, it returns true and
leaves all. What is left is what was there, less what the process could come to and take away. -/
theorem rm_exact {parent : Perm} {node : Node} (distinct : Distinct node) :
    (parent.search = true →
      ((rm parent node).1 = true ↔ (rm parent node).2 = none) ∧
        ((rm parent node).1 = true ↔ Removable parent node)) ∧
      (parent.search = false → rm parent node = (true, some node)) ∧
      ∀ path, HasLeft (rm parent node).2 path ↔ Has node path ∧ ¬ Goes parent node path := by
  refine ⟨fun search => ?_, fun hidden => rm_hidden hidden node, fun path =>
    rm_has_iff parent node path distinct⟩
  have returns := rm_returns_iff search node
  exact ⟨returns.trans (rm_gone_iff parent node).symm, returns⟩

/-- A directory with a file and a socket, which stays. -/
theorem rm_exact_socket :
    let all : Perm := ⟨true, true, true⟩
    let node : Node := .dir all false
      (.cons "log" (.file .regular false) (.cons "control" (.file .socket false) .nil))
    (rm all node).1 ≠ true ∧ HasLeft (rm all node).2 ["control"] ∧ ¬ HasLeft (rm all node).2 ["log"] := by
  intro all node
  have distinct : Distinct node := by
    simp [node, Distinct, AllDistinct, HasEntry]
  obtain ⟨searched, _, has⟩ := @rm_exact all node distinct
  obtain ⟨_, returns⟩ := searched rfl
  refine ⟨fun returned => ?_, (has ["control"]).mpr ?_, fun left => ((has ["log"]).mp left).2 ?_⟩
  · have removable := returns.mp returned
    simp [node, Removable, AllRemovable, Kind.mode, sIfDir] at removable
  · simp [node, Has, HasEntry, Goes, EntryGoes, Removable, Kind.mode, sIfDir]
  · simp [node, all, Goes, EntryGoes, Removable, takeAway, Kind.mode, sIfDir]

end Wyze.FSUtil
