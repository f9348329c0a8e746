/-
**`Config::LoadFromConfDir`.**

The call lists the `.yml` files below the directory and loads those whose time in `s_file2modifytime` is
not the time it asks for; that is the time of the directory, for every file. Between the calls the disk
changes in any way.

* `listAllFile_eq`: `ListAllFile` lists the regular files with the ending.
* `mem_loadLoop`: the files that a call loads, and the times it leaves.
* `lawful_iff`: when a call loads exactly the files that have changed, or all with `force`.
* `load_conf_dir_iff`: the runs in which every call does.
-/
import Wyze.Lib.Run

namespace Wyze.Config

/-! ### Directories -/

/-- A regular file: `st_mtime` and what is in it. -/
structure File where
  mtime : Nat
  content : String
deriving DecidableEq

/-- What `readdir` gives, in its order, with what is below: `DT_REG`, `DT_DIR` and other types. -/
inductive Entries where
  | nil
  | file (name : String) (file : File) (rest : Entries)
  | dir (name : String) (inner : Entries) (rest : Entries)
  | other (name : String) (rest : Entries)

/-- The configuration directory: what `lstat` says of it, unless it fails, and what is in it; one that
cannot be opened has no entries. -/
structure ConfDir where
  mtime : Option Nat
  entries : Entries

/-- `FSUtil::ListAllFile`. -/
def listAllFile (subfix : List Char) : List String → String → Entries → List String
  | files, _, .nil => files
  | files, path, .dir name inner rest =>
    if name = "." || name = ".." then listAllFile subfix files path rest
    else listAllFile subfix (listAllFile subfix files (path ++ "/" ++ name) inner) path rest
  | files, path, .file name _ rest =>
    if subfix.isEmpty then listAllFile subfix (files ++ [path ++ "/" ++ name]) path rest
    else if name.toList.length < subfix.length then listAllFile subfix files path rest
    else if name.toList.drop (name.toList.length - subfix.length) = subfix then
      listAllFile subfix (files ++ [path ++ "/" ++ name]) path rest
    else listAllFile subfix files path rest
  | files, path, .other _ rest => listAllFile subfix files path rest

/-- The regular files below the path whose name has the ending. -/
def filesBelow (subfix : List Char) (path : String) : Entries → List (String × File)
  | .nil => []
  | .dir name inner rest =>
    (if name = "." ∨ name = ".." then [] else filesBelow subfix (path ++ "/" ++ name) inner) ++
      filesBelow subfix path rest
  | .file name file rest =>
    (if subfix <:+ name.toList then [(path ++ "/" ++ name, file)] else []) ++
      filesBelow subfix path rest
  | .other _ rest => filesBelow subfix path rest

/-- **`ListAllFile`** appends the files with the ending. -/
theorem listAllFile_eq (subfix : List Char) (entries : Entries) (files : List String) (path : String) :
    listAllFile subfix files path entries =
      files ++ (filesBelow subfix path entries).map (·.1) := by
  induction entries generalizing files path with
  | nil => simp [listAllFile, filesBelow]
  | other name rest ih => exact ih files path
  | dir name inner rest ihInner ihRest =>
      rw [listAllFile, filesBelow]
      by_cases dots : name = "." ∨ name = ".."
      · simp [dots, ihRest]
      · simp [dots, ihInner, ihRest]
  | file name file rest ih =>
      rw [listAllFile, filesBelow]
      by_cases ends : subfix <:+ name.toList
      · have long : ¬ name.toList.length < subfix.length := Nat.not_lt_of_le ends.length_le
        simp [ends, long, (List.suffix_iff_eq_drop.mp ends).symm, ih]
      · have differs : name.toList.drop (name.toList.length - subfix.length) ≠ subfix := fun same =>
          ends (List.suffix_iff_eq_drop.mpr same.symm)
        have filled : subfix ≠ [] := by
          rintro rfl
          exact ends (List.nil_suffix)
        simp [ends, differs, filled, ih]

/-! ### `LoadFromConfDir` -/

/-- The `.yml` files of the directory. -/
def ymlFiles (path : String) (disk : ConfDir) : List (String × File) :=
  filesBelow ".yml".toList path disk.entries

/-- What is read at a listed path. -/
def ConfDir.read (path : String) (disk : ConfDir) (i : String) : Option File :=
  ((ymlFiles path disk).find? (·.1 = i)).map (·.2)

/-- The loop over `files`, with `s_file2modifytime`, which has 0 for what it does not have: the files it
loads. Both the file that is loaded and the one that fails to load are. -/
def loadLoop (disk : ConfDir) (modifytime : String → Nat) : List String → (String → Nat) × List String
  | [] => (modifytime, [])
  | i :: files =>
    match disk.mtime with
    | none => loadLoop disk modifytime files
    | some mtime =>
      if modifytime i = mtime then loadLoop disk modifytime files
      else
        let (after, loaded) :=
          loadLoop disk (fun other => if other = i then mtime else modifytime other) files
        (after, i :: loaded)

/-- `LoadFromConfDir`, which does not read `force`. -/
def loadFromConfDir (path : String) (disk : ConfDir) (modifytime : String → Nat) (_force : Bool) :
    (String → Nat) × List String :=
  loadLoop disk modifytime (listAllFile ".yml".toList [] path disk.entries)

theorem loadLoop_absent {disk : ConfDir} (absent : disk.mtime = none) (modifytime : String → Nat)
    (files : List String) : loadLoop disk modifytime files = (modifytime, []) := by
  induction files with
  | nil => rfl
  | cons j files ih =>
      rw [loadLoop, absent]
      exact ih

theorem loadLoop_same {disk : ConfDir} {mtime : Nat} (present : disk.mtime = some mtime)
    {modifytime : String → Nat} {j : String} (same : modifytime j = mtime) (files : List String) :
    loadLoop disk modifytime (j :: files) = loadLoop disk modifytime files := by
  rw [loadLoop, present]
  exact if_pos same

theorem loadLoop_loads {disk : ConfDir} {mtime : Nat} (present : disk.mtime = some mtime)
    {modifytime : String → Nat} {j : String} (differs : modifytime j ≠ mtime) (files : List String) :
    loadLoop disk modifytime (j :: files) =
      ((loadLoop disk (fun other => if other = j then mtime else modifytime other) files).1,
        j :: (loadLoop disk (fun other => if other = j then mtime else modifytime other) files).2) := by
  rw [loadLoop, present]
  exact if_neg differs

/-- **The files that a call loads**, and the time it leaves for each. -/
theorem mem_loadLoop {disk : ConfDir} {mtime : Nat} (present : disk.mtime = some mtime)
    (files : List String) (modifytime : String → Nat) (i : String) :
    (i ∈ (loadLoop disk modifytime files).2 ↔ i ∈ files ∧ modifytime i ≠ mtime) ∧
    ((loadLoop disk modifytime files).1 i =
      if i ∈ (loadLoop disk modifytime files).2 then mtime else modifytime i) := by
  induction files generalizing modifytime with
  | nil => simp [loadLoop]
  | cons j files ih =>
      by_cases same : modifytime j = mtime
      · rw [loadLoop_same present same]
        refine ⟨(ih modifytime).1.trans ?_, (ih modifytime).2⟩
        refine and_congr_left fun differs => ⟨List.mem_cons_of_mem _, fun member => ?_⟩
        rcases List.mem_cons.mp member with rfl | later
        · exact absurd same differs
        · exact later
      · rw [loadLoop_loads present same]
        obtain ⟨loads, leaves⟩ := ih fun other => if other = j then mtime else modifytime other
        by_cases here : i = j
        · subst here
          rw [leaves]
          simp [same]
        · rw [if_neg here] at loads leaves
          simp only [List.mem_cons, here, false_or, leaves, loads, and_self]

/-! ### Runs -/

/-- The disk changes, or the directory is loaded. -/
inductive Label where
  | change (disk : ConfDir)
  | load (force : Bool)

/-- The disk, `s_file2modifytime`, and for each file its own time and the directory's when it was last
loaded. -/
structure Record where
  disk : ConfDir
  modifytime : String → Nat
  fileTime : String → Option Nat
  dirTime : String → Option Nat

/-- What is seen of a step: nothing of a change, and of a call its `force`, the files there are, their
times when they were last loaded, and the files it loads. -/
structure Seen where
  force : Bool
  files : List (String × File)
  fileTime : String → Option Nat
  loaded : List String

/-- One step, in the directory of that path. -/
def step (path : String) (record : Record) : Label → Option (Record × Option Seen)
  | .change disk => some ({ record with disk := disk }, none)
  | .load force =>
    let result := loadFromConfDir path record.disk record.modifytime force
    some
      ({ record with
          modifytime := result.1
          fileTime := fun i =>
            if i ∈ result.2 then (record.disk.read path i).map (·.mtime) else record.fileTime i
          dirTime := fun i => if i ∈ result.2 then record.disk.mtime else record.dirTime i },
        some
          { force := force
            files := ymlFiles path record.disk
            fileTime := record.fileTime
            loaded := result.2 })

def Record.new (disk : ConfDir) : Record :=
  { disk := disk, modifytime := fun _ => 0, fileTime := fun _ => none, dirTime := fun _ => none }

/-- Just `.yml` files are loaded, those whose time is not the one that was recorded for them, and all of
them with `force`. -/
structure Seen.Lawful (seen : Seen) : Prop where
  only : ∀ i ∈ seen.loaded, ∃ file, (i, file) ∈ seen.files
  exact : ∀ i file, (i, file) ∈ seen.files →
    (i ∈ seen.loaded ↔ seen.force = true ∨ seen.fileTime i ≠ some file.mtime)

/-- The directory has another time than when a `.yml` file was last loaded, or than 0 if that was never,
exactly when the file has one or `force` is given. -/
def InStep (path : String) (record : Record) : Label → Prop
  | .change _ => True
  | .load force => ∀ i file, (i, file) ∈ ymlFiles path record.disk →
      ((∃ mtime, record.disk.mtime = some mtime ∧ (record.dirTime i).getD 0 ≠ mtime) ↔
        force = true ∨ record.fileTime i ≠ some file.mtime)

/-- `s_file2modifytime` has the times of the directory. -/
def Inv (record : Record) : Prop := ∀ i, record.modifytime i = (record.dirTime i).getD 0

/-- What one call loads. -/
theorem mem_load (path : String) {record : Record} (inv : Inv record) (force : Bool) (i : String) :
    i ∈ (loadFromConfDir path record.disk record.modifytime force).2 ↔
      i ∈ (ymlFiles path record.disk).map (·.1) ∧
        ∃ mtime, record.disk.mtime = some mtime ∧ (record.dirTime i).getD 0 ≠ mtime := by
  rw [loadFromConfDir, listAllFile_eq, List.nil_append, ← ymlFiles, ← inv i]
  cases time : record.disk.mtime with
  | none => simp [loadLoop_absent time]
  | some mtime => simp [(mem_loadLoop time _ record.modifytime i).1]

/-- The time that one call leaves for a file. -/
theorem modifytime_load (path : String) (disk : ConfDir) (modifytime : String → Nat) (force : Bool)
    (i : String) :
    (loadFromConfDir path disk modifytime force).1 i =
      if i ∈ (loadFromConfDir path disk modifytime force).2 then disk.mtime.getD 0
      else modifytime i := by
  unfold loadFromConfDir
  cases time : disk.mtime with
  | none => simp [loadLoop_absent time]
  | some mtime => exact (mem_loadLoop time _ modifytime i).2

theorem Inv.next {path : String} {record : Record} {label : Label} {next : Record × Option Seen}
    (inv : Inv record) (stepped : step path record label = some next) : Inv next.1 := by
  cases label with
  | change disk =>
      cases stepped
      exact inv
  | load force =>
      cases stepped
      intro i
      dsimp only
      rw [modifytime_load, inv i]
      by_cases loads : i ∈ (loadFromConfDir path record.disk record.modifytime force).2
      · rw [if_pos loads, if_pos loads]
      · rw [if_neg loads, if_neg loads]

/-- **A call is lawful** when the time of the directory and those of the files go together. -/
theorem lawful_iff {path : String} {record : Record} {label : Label} {next : Record × Option Seen}
    (inv : Inv record) (stepped : step path record label = some next) :
    (∀ seen ∈ next.2, seen.Lawful) ↔ InStep path record label := by
  cases label with
  | change disk =>
      cases stepped
      exact iff_of_true (by rintro _ ⟨⟩) trivial
  | load force =>
      cases stepped
      have loads := mem_load path inv force
      constructor
      · intro all i file member
        have exact := (all _ rfl).exact i file member
        dsimp only at exact
        rw [loads] at exact
        rw [← exact]
        exact ⟨fun changed => ⟨List.mem_map.mpr ⟨_, member, rfl⟩, changed⟩, And.right⟩
      · rintro inStep _ ⟨⟩
        refine ⟨fun i loaded => ?_, fun i file member => ?_⟩
        · obtain ⟨⟨_, file⟩, member, rfl⟩ := List.mem_map.mp ((loads i).mp loaded).1
          exact ⟨file, member⟩
        · dsimp only
          rw [loads, ← inStep i file member]
          exact ⟨And.right, fun changed => ⟨List.mem_map.mpr ⟨_, member, rfl⟩, changed⟩⟩

/-- **Loading a configuration directory.** In a run of changes and calls each call loads exactly the
`.yml` files whose time is not the one recorded when they were last loaded, and all with `force`, if and
only if at each call the directory has another time than at the last load of a file exactly when the
file has or `force` is given. -/
theorem load_conf_dir_iff (path : String) (disk : ConfDir) (labels : List Label) :
    ∃ final outputs, Labelled.trace (step path) (Record.new disk) labels = some (final, outputs) ∧
      ((∀ output ∈ outputs, ∀ seen ∈ output, seen.Lawful) ↔
        Labelled.Meets (step path) (InStep path) (Record.new disk) labels) := by
  obtain ⟨⟨final, outputs⟩, executed⟩ := @Labelled.exists_trace _ _ _ (step path)
    (fun record label => by cases label <;> exact ⟨_, rfl⟩) labels (Record.new disk)
  have step_keeps (record : Record) (label : Label) (next : Record × Option Seen) (inv : Inv record)
      (stepped : step path record label = some next) :
      Inv next.1 ∧ ((∀ seen ∈ next.2, seen.Lawful) ↔ InStep path record label) :=
    ⟨inv.next stepped, lawful_iff inv stepped⟩
  exact ⟨final, outputs, executed,
    Labelled.trace_outputs_iff step_keeps labels (fun _ => rfl) executed⟩

/-- `log.yml`, with what it holds, in a directory that was last changed at 100. -/
def confDir (mtime : Nat) (content : String) : ConfDir :=
  { mtime := some 100, entries := .file "log.yml" { mtime := mtime, content := content } .nil }

/-- **A file that is rewritten is not loaded again**, with `force` neither. -/
theorem rewritten_not_loaded :
    ∃ final seen, Labelled.trace (step "/conf") (Record.new (confDir 50 "logs:"))
        [.load false, .change (confDir 200 "logs: []"), .load false, .load true] =
          some (final, seen) ∧
      seen.map (fun output => output.map fun one => (one.loaded, one.fileTime "/conf/log.yml")) =
        [some (["/conf/log.yml"], none), none, some ([], some 50), some ([], some 50)] ∧
      (confDir 200 "logs: []").read "/conf" "/conf/log.yml" =
        some { mtime := 200, content := "logs: []" } :=
  ⟨_, _, rfl, by decide +kernel, by decide +kernel⟩

end Wyze.Config
