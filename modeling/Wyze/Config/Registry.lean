/-
**The registry of configuration variables.**

`Config::Lookup` makes a variable under a name, or returns the one that is there if it has the type;
`LoadFromYaml` lists the members of a document under the names that their keys make, and hands the text
of each to the variable of that name. A name with a letter that may not stand in one ends the listing
below it.

* `listAllMember_eq`: nothing is lost by that: every member of the document with a legal name is listed,
  in the order of the document.
* `settle_objects`: what a load does to one variable.
* `registry_alone`: **in every run, a variable keeps the type it was made with and stands where the texts
  of its own name, and the calls on it, have put it**, whatever happens to the others.
-/
import Wyze.Config.FromString

namespace Wyze.Config

open Yaml Labelled
open ConfigVar (Var Listener Thrown)

/-! ### Names -/

/-- The letters of a name. -/
def nameLetters : List Char := "abcdefghijklmnopqrstuvwxyz._0123456789".toList

/-- `find_first_not_of` finds nothing. -/
def legal (name : String) : Bool := name.toList.all (· ∈ nameLetters)

/-- `std::transform` with `::tolower`. -/
def lower (name : String) : String := name.map Char.toLower

/-- The name of a member: `prefix` and the key. -/
def child (pre key : String) : String := if pre.isEmpty then key else pre ++ "." ++ key

mutual

def listAllMember (pre : String) (node : Yaml.Node) (output : List (String × Yaml.Node)) :
    List (String × Yaml.Node) :=
  if legal pre then
    match node with
    | .map entries => listEntries pre entries (output ++ [(pre, .map entries)])
    | .undefined | .null | .scalar _ | .sequence _ => output ++ [(pre, node)]
  else output

/-- The loop over the pairs of a map. -/
def listEntries (pre : String) (entries : List (Yaml.Node × Yaml.Node))
    (output : List (String × Yaml.Node)) : List (String × Yaml.Node) :=
  match entries with
  | [] => output
  | (first, second) :: rest =>
    listEntries pre rest (listAllMember (child pre first.text) second output)

end

mutual

/-- The members of a document, each with the keys that lead to it. -/
def members (node : Yaml.Node) : List (List String × Yaml.Node) :=
  match node with
  | .map entries => ([], .map entries) :: membersOf entries
  | .undefined | .null | .scalar _ | .sequence _ => [([], node)]

def membersOf (entries : List (Yaml.Node × Yaml.Node)) : List (List String × Yaml.Node) :=
  match entries with
  | [] => []
  | (first, second) :: rest =>
    (members second).map (fun member => (first.text :: member.1, member.2)) ++ membersOf rest

end

/-- The members below a name, by their own names, as far as these are legal. -/
def named (pre : String) (below : List (List String × Yaml.Node)) : List (String × Yaml.Node) :=
  (below.map fun member => (member.1.foldl child pre, member.2)).filter fun member => legal member.1

/-- **What a document sets**: its members with a legal name, in the order of the document. -/
def settings (root : Yaml.Node) : List (String × Yaml.Node) := named "" (members root)

theorem legal_of_child {pre key : String} (isLegal : legal (child pre key) = true) :
    legal pre = true := by
  unfold child at isLegal
  split_ifs at isLegal with first
  · rw [String.isEmpty_iff.mp first]
    rfl
  · unfold legal at isLegal ⊢
    rw [String.toList_append, String.toList_append, List.all_append, List.all_append, Bool.and_eq_true,
      Bool.and_eq_true] at isLegal
    exact isLegal.1.1

/-- A name that is no legal one is in no legal one. -/
theorem legal_of_path : ∀ {path : List String} {pre : String},
    legal (path.foldl child pre) = true → legal pre = true
  | [], _, isLegal => isLegal
  | _ :: path, _, isLegal => legal_of_child (@legal_of_path path _ isLegal)

theorem named_illegal {pre : String} (illegal : legal pre = false)
    (below : List (List String × Yaml.Node)) : named pre below = [] := by
  unfold named
  rw [List.filter_eq_nil_iff]
  intro member isMember isLegal
  obtain ⟨one, _, rfl⟩ := List.mem_map.mp isMember
  rw [legal_of_path isLegal] at illegal
  cases illegal

theorem named_append (pre : String) (first second : List (List String × Yaml.Node)) :
    named pre (first ++ second) = named pre first ++ named pre second := by
  unfold named
  rw [List.map_append, List.filter_append]

theorem named_below (pre key : String) (below : List (List String × Yaml.Node)) :
    named pre (below.map fun member => (key :: member.1, member.2)) = named (child pre key) below := by
  unfold named
  rw [List.map_map]
  rfl

theorem named_here {pre : String} (isLegal : legal pre = true) (node : Yaml.Node)
    (below : List (List String × Yaml.Node)) :
    named pre (([], node) :: below) = (pre, node) :: named pre below := by
  unfold named
  rw [List.map_cons]
  exact List.filter_cons_of_pos isLegal

mutual

/-- **The listing loses nothing**: below a name that is no legal one there are no legal ones. -/
theorem listAllMember_eq (pre : String) (node : Yaml.Node) (output : List (String × Yaml.Node)) :
    listAllMember pre node output = output ++ named pre (members node) := by
  unfold listAllMember
  cases isLegal : legal pre with
  | false =>
      rw [named_illegal isLegal, List.append_nil]
      rfl
  | true =>
      rw [if_pos rfl]
      match node with
      | .map entries =>
          unfold members
          dsimp only
          rw [listEntries_eq, named_here isLegal, List.append_assoc]
          rfl
      | .undefined | .null | .scalar _ | .sequence _ =>
          unfold members
          dsimp only
          rw [named_here isLegal]
          rfl

theorem listEntries_eq (pre : String) (entries : List (Yaml.Node × Yaml.Node))
    (output : List (String × Yaml.Node)) :
    listEntries pre entries output = output ++ named pre (membersOf entries) := by
  match entries with
  | [] =>
      unfold listEntries membersOf
      exact (List.append_nil _).symm
  | (first, second) :: rest =>
      unfold listEntries membersOf
      rw [listEntries_eq, listAllMember_eq, named_append, named_below, List.append_assoc]

end

/-- `LoadFromYaml` goes through the settings. -/
theorem listAllMember_root (root : Yaml.Node) : listAllMember "" root [] = settings root :=
  listAllMember_eq "" root []

/-! ### Variables -/

theorem ordered_insert {β : Type} {cbs : List (Nat × β)} (ordered : (cbs.map Prod.fst).Pairwise (· < ·))
    (key : Nat) (cb : β) :
    ((cbs.filter (·.1 < key) ++ (key, cb) :: cbs.filter (key < ·.1)).map Prod.fst).Pairwise
      (· < ·) := by
  have before := ordered.sublist ((List.filter_sublist (p := (·.1 < key))).map Prod.fst)
  have after := ordered.sublist ((List.filter_sublist (p := (key < ·.1))).map Prod.fst)
  have below : ∀ other ∈ (cbs.filter (·.1 < key)).map Prod.fst, other < key := by
    intro other isOther
    obtain ⟨entry, isEntry, rfl⟩ := List.mem_map.mp isOther
    exact of_decide_eq_true (List.mem_filter.mp isEntry).2
  have above : ∀ other ∈ (cbs.filter (key < ·.1)).map Prod.fst, key < other := by
    intro other isOther
    obtain ⟨entry, isEntry, rfl⟩ := List.mem_map.mp isOther
    exact of_decide_eq_true (List.mem_filter.mp isEntry).2
  rw [List.map_append, List.map_cons, List.pairwise_append, List.pairwise_cons]
  refine ⟨before, ⟨above, after⟩, fun first isFirst second isSecond => ?_⟩
  rcases List.mem_cons.mp isSecond with rfl | isSecond
  · exact below first isFirst
  · exact (below first isFirst).trans (above second isSecond)

/-- `m_cbs[key] = cb`. -/
def addListener {α : Type} (var : Var α) (key : Nat) (cb : Listener α) : Var α where
  val := var.val
  cbs := var.cbs.filter (·.1 < key) ++ (key, cb) :: var.cbs.filter (key < ·.1)
  ordered := ordered_insert var.ordered key cb

/-- `m_cbs.erase(key)`. -/
def delListener {α : Type} (var : Var α) (key : Nat) : Var α where
  val := var.val
  cbs := var.cbs.filter (·.1 ≠ key)
  ordered := var.ordered.sublist (List.filter_sublist.map Prod.fst)

/-- `m_cbs.clear()`. -/
def clearListener {α : Type} (var : Var α) : Var α where
  val := var.val
  cbs := []
  ordered := List.Pairwise.nil

/-- A `ConfigVar<T>` behind its `ConfigVarBase`: the type, `m_name`, and the rest. -/
structure Entry {κ : Type} (Value : κ → Type) where
  kind : κ
  name : String
  var : Var (Value kind)

/-- `GetDatas`, and the variables ever made: a pointer is the number of one. -/
structure Registry {κ : Type} (Value : κ → Type) where
  datas : String → Option Nat
  objects : List (Entry Value)

/-- The calls on the registry, and those on a variable whose type is known. The key of a new listener is
what `s_fun_id` has come to. -/
inductive Call {κ : Type} (Value : κ → Type) where
  | lookup (name : String) (kind : κ) (default : Value kind)
  | find (name : String) (kind : κ)
  | lookupBase (name : String)
  | load (root : Yaml.Node)
  | setVal (ptr : Nat) (kind : κ) (v : Value kind)
  | addListener (ptr : Nat) (kind : κ) (key : Nat) (cb : Listener (Value kind))
  | delListener (ptr : Nat) (kind : κ) (key : Nat)
  | clearListener (ptr : Nat) (kind : κ)

/-- What a call returns or throws. A load says how many settings it has gone through, and whether these
are all: an exception that `fromString` does not catch ends it. -/
inductive Out where
  | pointer (ptr : Option Nat)
  | invalidArgument
  | loaded (count : Nat) (complete : Bool)
  | returned (thrown : Option Thrown)
  deriving DecidableEq

section Source

variable {κ : Type} [DecidableEq κ] {Value : κ → Type} [∀ kind, BEq (Value kind)]

namespace Entry

/-- The constructor of `ConfigVar`. -/
def new (name : String) (kind : κ) (default : Value kind) : Entry Value :=
  ⟨kind, lower name, ⟨default, [], List.Pairwise.nil⟩⟩

/-- `fromString`, with `FromStr` of each type. -/
def fromString (fromStr : ∀ kind, String → Except Thrown (Value kind)) (entry : Entry Value)
    (val : String) : Entry Value × Option Bool :=
  let outcome := entry.var.fromString (fromStr entry.kind) val
  ({ entry with var := outcome.var }, outcome.returned)

/-- A call through a pointer to the type. -/
def use (kind : κ) (change : Var (Value kind) → Var (Value kind) × Option Thrown) (entry : Entry Value) :
    Option (Entry Value × Option Thrown) :=
  if isKind : entry.kind = kind then
    let result := change (isKind ▸ entry.var)
    some (⟨kind, entry.name, result.1⟩, result.2)
  else none

end Entry

/-- What a call on a variable does to it. -/
def Call.use : Call Value → Option (Nat × (Entry Value → Option (Entry Value × Option Thrown)))
  | .setVal ptr kind v =>
    some (ptr, Entry.use kind fun var => ((var.setVal v).1, (var.setVal v).2.2))
  | .addListener ptr kind key cb =>
    some (ptr, Entry.use kind fun var => (Config.addListener var key cb, none))
  | .delListener ptr kind key => some (ptr, Entry.use kind fun var => (Config.delListener var key, none))
  | .clearListener ptr kind => some (ptr, Entry.use kind fun var => (Config.clearListener var, none))
  | .lookup .. | .find .. | .lookupBase .. | .load .. => none

variable (codec : Codec) (fromStr : ∀ kind, String → Except Thrown (Value kind))

/-- The text that `LoadFromYaml` hands to a variable. -/
def textOf : Yaml.Node → String
  | .scalar text => text
  | node => codec.emit node

namespace Registry

def empty : Registry Value := ⟨fun _ => none, []⟩

/-- `dynamic_pointer_cast` of a pointer that has been found. -/
def cast (registry : Registry Value) (kind : κ) (ptr : Nat) : Option Nat :=
  (registry.objects[ptr]?).bind fun entry => if entry.kind = kind then some ptr else none

/-- `LookupBase` for a setting that has a name. -/
def settingFor (registry : Registry Value) (name : String) : Option (Nat × Entry Value) :=
  if name.isEmpty then none
  else (registry.datas (lower name)).bind fun ptr => (registry.objects[ptr]?).map (ptr, ·)

/-- The loop of `LoadFromYaml`. -/
def settle (registry : Registry Value) : List (String × Yaml.Node) → Registry Value × Nat × Bool
  | [] => (registry, 0, true)
  | (name, node) :: rest =>
    match registry.settingFor name with
    | none =>
      let result := settle registry rest
      (result.1, result.2.1 + 1, result.2.2)
    | some (ptr, entry) =>
      let (entry, returned) := entry.fromString fromStr (textOf codec node)
      let registry := { registry with objects := registry.objects.set ptr entry }
      match returned with
      | none => (registry, 1, false)
      | some _ =>
        let result := settle registry rest
        (result.1, result.2.1 + 1, result.2.2)

/-- A call on a variable. -/
def access (registry : Registry Value) (ptr : Nat)
    (change : Entry Value → Option (Entry Value × Option Thrown)) : Option (Registry Value × Out) :=
  (registry.objects[ptr]?).bind fun entry => (change entry).map fun result =>
    ({ registry with objects := registry.objects.set ptr result.1 }, .returned result.2)

/-- One call. -/
def step (registry : Registry Value) : Call Value → Option (Registry Value × Out)
  | .lookup name kind default =>
    match registry.datas (lower name) with
    | some ptr => some (registry, .pointer (registry.cast kind ptr))
    | none =>
      if legal name then
        some ({ datas := Function.update registry.datas name (some registry.objects.length)
                objects := registry.objects ++ [.new name kind default] },
          .pointer (some registry.objects.length))
      else some (registry, .invalidArgument)
  | .find name kind => some (registry, .pointer ((registry.datas name).bind (registry.cast kind)))
  | .lookupBase name => some (registry, .pointer (registry.datas name))
  | .load root =>
    let result := registry.settle codec fromStr (listAllMember "" root [])
    some (result.1, .loaded result.2.1 result.2.2)
  | call => call.use.bind fun onVar => registry.access onVar.1 onVar.2

end Registry

/-! ### One variable -/

namespace Entry

/-- The settings with the name of the variable, one after the other. -/
def replay (entry : Entry Value) (given : List (String × Yaml.Node)) : Entry Value :=
  ((given.filter fun setting => setting.1 = entry.name ∧ entry.name ≠ "").map fun setting =>
    textOf codec setting.2).foldl (fun entry text => (entry.fromString fromStr text).1) entry

/-- **What a call is to one variable**: a load is the settings of its name. -/
def see (ptr : Nat) (entry : Entry Value) : Call Value × Out → Entry Value
  | (.load root, .loaded count _) => entry.replay codec fromStr ((settings root).take count)
  | (call, _) =>
    match call.use with
    | none => entry
    | some onVar => if onVar.1 = ptr then ((onVar.2 entry).map Prod.fst).getD entry else entry

end Entry

/-! ### What a call keeps -/

theorem lower_of_legal {name : String} (isLegal : legal name = true) : lower name = name := by
  have lowered : nameLetters.map Char.toLower = nameLetters := by decide
  have fixed : ∀ letter ∈ nameLetters, letter.toLower = letter :=
    List.map_inj_left.mp (lowered.trans (List.map_id' _).symm)
  unfold lower
  rw [String.map_eq_internal]
  have same : name.toList.map Char.toLower = name.toList :=
    (List.map_congr_left fun letter member => fixed letter
      (of_decide_eq_true (List.all_eq_true.mp isLegal letter member))).trans (List.map_id' _)
  rw [same, String.ofList_toList]

variable {codec fromStr}

namespace Registry

/-- **The names are those of the variables**: `datas` has each variable under its own name, and this is a
legal one. -/
structure Sound (registry : Registry Value) : Prop where
  entry : ∀ name ptr, registry.datas name = some ptr →
    ∃ entry, registry.objects[ptr]? = some entry ∧ entry.name = name
  found : ∀ ptr entry, registry.objects[ptr]? = some entry →
    registry.datas entry.name = some ptr ∧ legal entry.name = true

variable {registry : Registry Value} {ptr : Nat} {entry : Entry Value}

omit [DecidableEq κ] [∀ kind, BEq (Value kind)] in
theorem sound_set (sound : registry.Sound) (isEntry : registry.objects[ptr]? = some entry)
    {changed : Entry Value} (same : changed.name = entry.name) :
    ({ registry with objects := registry.objects.set ptr changed } : Registry Value).Sound := by
  have inside : ptr < registry.objects.length := (List.getElem?_eq_some_iff.mp isEntry).1
  constructor
  · intro name ptr' isPtr
    obtain ⟨entry', isEntry', isName⟩ := sound.entry name ptr' isPtr
    dsimp only
    by_cases here : ptr' = ptr
    · subst here
      rw [isEntry] at isEntry'
      cases isEntry'
      exact ⟨changed, List.getElem?_set_self inside, same.trans isName⟩
    · exact ⟨entry', (List.getElem?_set_ne (Ne.symm here)).trans isEntry', isName⟩
  · intro ptr' entry' isEntry'
    dsimp only at isEntry' ⊢
    by_cases here : ptr' = ptr
    · subst here
      rw [List.getElem?_set_self inside] at isEntry'
      cases isEntry'
      rw [same]
      exact sound.found ptr' entry isEntry
    · rw [List.getElem?_set_ne (Ne.symm here)] at isEntry'
      exact sound.found ptr' entry' isEntry'

omit [DecidableEq κ] [∀ kind, BEq (Value kind)] in
/-- The variable of a setting is the one with its name. -/
theorem settingFor_eq_some (sound : registry.Sound) {name : String} (isLegal : legal name = true) :
    registry.settingFor name = some (ptr, entry) ↔
      name ≠ "" ∧ registry.objects[ptr]? = some entry ∧ entry.name = name := by
  unfold settingFor
  rw [lower_of_legal isLegal]
  split_ifs with empty
  · rw [String.isEmpty_iff] at empty
    exact iff_of_false (by rintro ⟨⟩) fun both => both.1 empty
  · rw [String.isEmpty_iff] at empty
    rw [Option.bind_eq_some_iff]
    constructor
    · rintro ⟨ptr', isPtr, mapped⟩
      obtain ⟨entry', isEntry', same⟩ := Option.map_eq_some_iff.mp mapped
      cases same
      obtain ⟨entry', isEntry', isName⟩ := sound.entry name ptr isPtr
      rw [‹registry.objects[ptr]? = some entry›] at isEntry'
      cases isEntry'
      exact ⟨empty, ‹_›, isName⟩
    · rintro ⟨_, isEntry, rfl⟩
      exact ⟨ptr, (sound.found ptr entry isEntry).1, by rw [isEntry]; rfl⟩

end Registry

namespace Entry

variable (codec fromStr) in
omit [DecidableEq κ] in
theorem replay_other (entry : Entry Value) {setting : String × Yaml.Node}
    (rest : List (String × Yaml.Node)) (other : ¬ (setting.1 = entry.name ∧ entry.name ≠ "")) :
    entry.replay codec fromStr (setting :: rest) = entry.replay codec fromStr rest := by
  unfold replay
  rw [List.filter_cons_of_neg (by simpa using other)]

variable (codec fromStr) in
omit [DecidableEq κ] in
theorem replay_own (entry : Entry Value) {setting : String × Yaml.Node}
    (rest : List (String × Yaml.Node)) (own : setting.1 = entry.name ∧ entry.name ≠ "") :
    entry.replay codec fromStr (setting :: rest) =
      (entry.fromString fromStr (textOf codec setting.2)).1.replay codec fromStr rest := by
  unfold replay
  rw [List.filter_cons_of_pos (by simpa using own)]
  rfl

end Entry

namespace Registry

omit [DecidableEq κ] in
/-- **The loop of `LoadFromYaml`**: every variable goes through the settings of its name, in order, up to
the one that ends the loop. -/
theorem settle_objects (given : List (String × Yaml.Node)) :
    ∀ {registry : Registry Value}, registry.Sound → (∀ setting ∈ given, legal setting.1 = true) →
      (registry.settle codec fromStr given).1.Sound ∧
      (registry.settle codec fromStr given).1.datas = registry.datas ∧
      (registry.settle codec fromStr given).1.objects.length = registry.objects.length ∧
      ∀ (ptr : Nat) (entry : Entry Value), registry.objects[ptr]? = some entry →
        (registry.settle codec fromStr given).1.objects[ptr]? =
          some (entry.replay codec fromStr
            (given.take (registry.settle codec fromStr given).2.1)) := by
  induction given with
  | nil => exact fun sound _ => ⟨sound, rfl, rfl, fun _ _ isEntry => isEntry⟩
  | cons setting rest ih =>
      intro registry sound allLegal
      obtain ⟨name, node⟩ := setting
      obtain ⟨isLegal, restLegal⟩ := List.forall_mem_cons.mp allLegal
      dsimp only at isLegal
      unfold settle
      cases forSetting : registry.settingFor name with
      | none =>
          dsimp only
          obtain ⟨sound', datas, length, objects⟩ := ih sound restLegal
          refine ⟨sound', datas, length, fun ptr entry isEntry => ?_⟩
          rw [objects ptr entry isEntry, List.take_succ_cons, Entry.replay_other]
          rintro ⟨isName, nonempty⟩
          dsimp only at isName
          rw [(settingFor_eq_some sound isLegal).mpr ⟨isName ▸ nonempty, isEntry, isName.symm⟩]
            at forSetting
          cases forSetting
      | some found =>
          obtain ⟨own, entry⟩ := found
          obtain ⟨nonempty, isEntry, isName⟩ := (settingFor_eq_some sound isLegal).mp forSetting
          have inside : own < registry.objects.length := (List.getElem?_eq_some_iff.mp isEntry).1
          have soundNext : Sound { registry with
              objects := registry.objects.set own (entry.fromString fromStr (textOf codec node)).1 } :=
            sound_set sound isEntry rfl
          have others : ∀ (ptr : Nat) (other : Entry Value), ptr ≠ own →
              registry.objects[ptr]? = some other →
              ¬ (name = other.name ∧ other.name ≠ "") := by
            rintro ptr other different isOther ⟨same, _⟩
            have first := (sound.found ptr other isOther).1
            rw [← same, ← isName, (sound.found own entry isEntry).1] at first
            exact different (Option.some.inj first).symm
          dsimp only
          cases returned : (entry.fromString fromStr (textOf codec node)).2 with
          | none =>
              dsimp only
              refine ⟨soundNext, rfl, List.length_set, fun ptr other isOther => ?_⟩
              rw [List.take_succ_cons, List.take_zero]
              by_cases here : ptr = own
              · subst here
                rw [isEntry] at isOther
                cases isOther
                rw [List.getElem?_set_self inside, Entry.replay_own]
                · rfl
                · exact ⟨isName.symm, isName ▸ nonempty⟩
              · rw [List.getElem?_set_ne (Ne.symm here), isOther,
                  Entry.replay_other _ _ _ _ (others ptr other here isOther)]
                rfl
          | some _ =>
              dsimp only
              obtain ⟨sound', datas, length, objects⟩ := ih soundNext restLegal
              refine ⟨sound', datas, length.trans List.length_set, fun ptr other isOther => ?_⟩
              rw [List.take_succ_cons]
              by_cases here : ptr = own
              · subst here
                rw [isEntry] at isOther
                cases isOther
                rw [Entry.replay_own]
                · exact objects ptr _ (List.getElem?_set_self inside)
                · exact ⟨isName.symm, isName ▸ nonempty⟩
              · rw [Entry.replay_other _ _ _ _ (others ptr other here isOther)]
                exact objects ptr other ((List.getElem?_set_ne (Ne.symm here)).trans isOther)

end Registry

/-- A call on a variable leaves it its type and its name. -/
theorem use_keeps {call : Call Value}
    {onVar : Nat × (Entry Value → Option (Entry Value × Option Thrown))} (isUse : call.use = some onVar)
    {entry : Entry Value} {result : Entry Value × Option Thrown} (used : onVar.2 entry = some result) :
    result.1.kind = entry.kind ∧ result.1.name = entry.name := by
  have keeps {kind : κ} {change : Var (Value kind) → Var (Value kind) × Option Thrown}
      (used : Entry.use kind change entry = some result) :
      result.1.kind = entry.kind ∧ result.1.name = entry.name := by
    unfold Entry.use at used
    split_ifs at used with isKind
    cases used
    exact ⟨isKind.symm, rfl⟩
  cases call with
  | lookup | find | lookupBase | load => cases isUse
  | setVal | addListener | delListener | clearListener =>
      cases isUse
      dsimp only at used
      exact keeps used

omit [DecidableEq κ] in
theorem replay_keeps (entry : Entry Value) (given : List (String × Yaml.Node)) :
    (entry.replay codec fromStr given).kind = entry.kind ∧
      (entry.replay codec fromStr given).name = entry.name := by
  unfold Entry.replay
  generalize ((given.filter _).map _ : List String) = texts
  induction texts generalizing entry with
  | nil => exact ⟨rfl, rfl⟩
  | cons text texts ih => exact ih (entry.fromString fromStr text).1

theorem see_keeps (ptr : Nat) (entry : Entry Value) (shown : Call Value × Out) :
    (entry.see codec fromStr ptr shown).kind = entry.kind ∧
      (entry.see codec fromStr ptr shown).name = entry.name := by
  unfold Entry.see
  split
  · exact replay_keeps _ _
  · split
    · exact ⟨rfl, rfl⟩
    · rename_i onVar isUse
      split_ifs
      · cases used : onVar.2 entry with
        | none => exact ⟨rfl, rfl⟩
        | some result => exact use_keeps isUse used
      · exact ⟨rfl, rfl⟩

namespace Registry

variable {registry : Registry Value} {ptr : Nat} {entry : Entry Value} {call : Call Value}
  {result : Registry Value × Out}

theorem legal_settings (root : Yaml.Node) : ∀ setting ∈ settings root, legal setting.1 = true :=
  fun _ isSetting => (List.mem_filter.mp isSetting).2

omit [DecidableEq κ] [∀ kind, BEq (Value kind)] in
/-- A new variable is made under its name. -/
theorem sound_new (sound : registry.Sound) {name : String} (absent : registry.datas (lower name) = none)
    (isLegal : legal name = true) (kind : κ) (default : Value kind) :
    Sound { datas := Function.update registry.datas name (some registry.objects.length)
            objects := registry.objects ++ [.new name kind default] } := by
  rw [lower_of_legal isLegal] at absent
  have isName : (Entry.new name kind default).name = name := lower_of_legal isLegal
  constructor
  · intro other ptr isPtr
    dsimp only at isPtr ⊢
    by_cases same : other = name
    · subst same
      rw [Function.update_self] at isPtr
      cases isPtr
      exact ⟨_, List.getElem?_concat_length, isName⟩
    · rw [Function.update_of_ne same] at isPtr
      obtain ⟨entry, isEntry, named⟩ := sound.entry other ptr isPtr
      exact ⟨entry, (List.getElem?_append_left (List.getElem?_eq_some_iff.mp isEntry).1).trans isEntry,
        named⟩
  · intro ptr entry isEntry
    dsimp only at isEntry ⊢
    rcases Nat.lt_or_ge ptr registry.objects.length with before | after
    · rw [List.getElem?_append_left before] at isEntry
      obtain ⟨found, legalEntry⟩ := sound.found ptr entry isEntry
      refine ⟨(Function.update_of_ne ?_ ..).trans found, legalEntry⟩
      intro same
      rw [same, absent] at found
      cases found
    · obtain rfl : ptr = registry.objects.length := by
        have inside := (List.getElem?_eq_some_iff.mp isEntry).1
        rw [List.length_append] at inside
        exact Nat.le_antisymm (Nat.lt_succ_iff.mp inside) after
      rw [List.getElem?_concat_length] at isEntry
      cases isEntry
      rw [isName]
      exact ⟨Function.update_self .., isLegal⟩

omit [DecidableEq κ] [∀ kind, BEq (Value kind)] in
theorem access_eq_some {change : Entry Value → Option (Entry Value × Option Thrown)}
    (accessed : registry.access ptr change = some result) :
    ∃ entry changed thrown, registry.objects[ptr]? = some entry ∧ change entry = some (changed, thrown) ∧
      result = ({ registry with objects := registry.objects.set ptr changed }, .returned thrown) := by
  obtain ⟨entry, isEntry, mapped⟩ := Option.bind_eq_some_iff.mp accessed
  obtain ⟨⟨changed, thrown⟩, isChanged, rfl⟩ := Option.map_eq_some_iff.mp mapped
  exact ⟨entry, changed, thrown, isEntry, isChanged, rfl⟩

variable (codec fromStr) in
theorem see_use {onVar : Nat × (Entry Value → Option (Entry Value × Option Thrown))}
    (isUse : call.use = some onVar) (ptr : Nat) (entry : Entry Value) (out : Out) :
    entry.see codec fromStr ptr (call, out) =
      if onVar.1 = ptr then ((onVar.2 entry).map Prod.fst).getD entry else entry := by
  cases call with
  | lookup | find | lookupBase | load => cases isUse
  | setVal | addListener | delListener | clearListener =>
      cases isUse
      rfl

theorem access_objects (sound : registry.Sound)
    {onVar : Nat × (Entry Value → Option (Entry Value × Option Thrown))} (isUse : call.use = some onVar)
    (accessed : registry.access onVar.1 onVar.2 = some result) :
    result.1.Sound ∧ ∀ (ptr : Nat) (entry : Entry Value), registry.objects[ptr]? = some entry →
      result.1.objects[ptr]? = some (entry.see codec fromStr ptr (call, result.2)) := by
  obtain ⟨changing, changed, thrown, isChanging, isChanged, rfl⟩ := access_eq_some accessed
  have inside : onVar.1 < registry.objects.length := (List.getElem?_eq_some_iff.mp isChanging).1
  refine ⟨sound_set sound isChanging (use_keeps isUse isChanged).2, fun ptr entry isEntry => ?_⟩
  dsimp only
  rw [see_use codec fromStr isUse]
  by_cases here : onVar.1 = ptr
  · subst here
    rw [isChanging] at isEntry
    cases isEntry
    rw [List.getElem?_set_self inside, if_pos rfl, isChanged]
    rfl
  · rw [List.getElem?_set_ne here, if_neg here]
    exact isEntry

/-- **One call.** Every variable sees of it what is about that variable. -/
theorem step_objects (sound : registry.Sound)
    (stepped : registry.step codec fromStr call = some result) :
    result.1.Sound ∧ ∀ (ptr : Nat) (entry : Entry Value), registry.objects[ptr]? = some entry →
      result.1.objects[ptr]? = some (entry.see codec fromStr ptr (call, result.2)) := by
  cases call with
  | lookup name kind default =>
      unfold step at stepped
      dsimp only at stepped
      split at stepped
      · cases stepped
        exact ⟨sound, fun _ _ isEntry => isEntry⟩
      · rename_i absent
        split_ifs at stepped with isLegal
        · cases stepped
          refine ⟨sound_new sound absent isLegal kind default, fun ptr entry isEntry => ?_⟩
          exact (List.getElem?_append_left (List.getElem?_eq_some_iff.mp isEntry).1).trans isEntry
        · cases stepped
          exact ⟨sound, fun _ _ isEntry => isEntry⟩
  | find name kind =>
      cases stepped
      exact ⟨sound, fun _ _ isEntry => isEntry⟩
  | lookupBase name =>
      cases stepped
      exact ⟨sound, fun _ _ isEntry => isEntry⟩
  | load root =>
      cases stepped
      obtain ⟨sound', _, _, objects⟩ := settle_objects (settings root) sound (legal_settings root)
      rw [← listAllMember_root] at sound' objects
      refine ⟨sound', fun ptr entry isEntry => ?_⟩
      exact (objects ptr entry isEntry).trans (by rw [listAllMember_root]; rfl)
  | setVal ptr kind v => exact access_objects sound rfl stepped
  | addListener ptr kind key cb => exact access_objects sound rfl stepped
  | delListener ptr kind key => exact access_objects sound rfl stepped
  | clearListener ptr kind => exact access_objects sound rfl stepped

/-- Only a lookup makes a variable. -/
theorem step_new (stepped : registry.step codec fromStr call = some result) (sound : registry.Sound)
    (isNew : registry.objects.length ≤ ptr) (made : result.1.objects[ptr]? = some entry) :
    ∃ name kind default, call = .lookup name kind default ∧ result.2 = .pointer (some ptr) ∧
      legal name = true ∧ entry = .new name kind default := by
  have notOld (old : result.1.objects.length = registry.objects.length) : False :=
    absurd (List.getElem?_eq_some_iff.mp made).1 (Nat.not_lt.mpr (old ▸ isNew))
  cases call with
  | lookup name kind default =>
      unfold step at stepped
      dsimp only at stepped
      split at stepped
      · cases stepped
        exact absurd rfl notOld
      · split_ifs at stepped with isLegal
        · cases stepped
          have inside := (List.getElem?_eq_some_iff.mp made).1
          rw [List.length_append] at inside
          obtain rfl : ptr = registry.objects.length := Nat.le_antisymm (Nat.lt_succ_iff.mp inside) isNew
          rw [List.getElem?_concat_length] at made
          exact ⟨name, kind, default, rfl, rfl, isLegal, (Option.some.inj made).symm⟩
        · cases stepped
          exact absurd rfl notOld
  | find name kind =>
      cases stepped
      exact absurd rfl notOld
  | lookupBase name =>
      cases stepped
      exact absurd rfl notOld
  | load root =>
      cases stepped
      rw [listAllMember_root] at notOld
      exact absurd (settle_objects (settings root) sound (legal_settings root)).2.2.1 notOld
  | setVal | addListener | delListener | clearListener =>
      obtain ⟨_, _, _, _, _, rfl⟩ := access_eq_some stepped
      exact absurd List.length_set notOld

/-- A lookup of a name that is taken, in any letter case, returns the variable if the type is its own. -/
theorem step_lookup (sound : registry.Sound) (isEntry : registry.objects[ptr]? = some entry)
    {name : String} {kind : κ} {default : Value kind} (isName : lower name = entry.name)
    (stepped : registry.step codec fromStr (.lookup name kind default) = some result) :
    result.2 = .pointer (if entry.kind = kind then some ptr else none) := by
  unfold step at stepped
  dsimp only at stepped
  rw [isName, (sound.found ptr entry isEntry).1] at stepped
  cases stepped
  unfold cast
  rw [isEntry]
  rfl

end Registry

section Runs

variable {calls : List (Call Value)} {registry final : Registry Value} {outs : List Out} {ptr : Nat}
  {entry : Entry Value}

theorem foldl_see_keeps (ptr : Nat) (entry : Entry Value) (shown : List (Call Value × Out)) :
    (shown.foldl (Entry.see codec fromStr ptr) entry).kind = entry.kind ∧
      (shown.foldl (Entry.see codec fromStr ptr) entry).name = entry.name := by
  induction shown generalizing entry with
  | nil => exact ⟨rfl, rfl⟩
  | cons first rest ih =>
      obtain ⟨kind, name⟩ := @see_keeps κ _ Value _ codec fromStr ptr entry first
      exact ⟨(ih _).1.trans kind, (ih _).2.trans name⟩

/-- **A run, for a variable that is there**: it goes through what is about it, and is what lookups of its
name find. -/
theorem run_objects (calls : List (Call Value)) :
    ∀ {registry final : Registry Value} {outs : List Out} {entry : Entry Value}, registry.Sound →
      trace (Registry.step codec fromStr) registry calls = some (final, outs) →
      registry.objects[ptr]? = some entry →
      final.objects[ptr]? = some ((calls.zip outs).foldl (Entry.see codec fromStr ptr) entry) ∧
      ∀ (j : Nat) (name : String) (kind : κ) (default : Value kind),
        calls[j]? = some (.lookup name kind default) → lower name = entry.name →
        outs[j]? = some (.pointer (if entry.kind = kind then some ptr else none)) := by
  induction calls with
  | nil =>
      intro registry final outs entry _ executed isEntry
      cases executed
      exact ⟨isEntry, fun j name kind default placed => by cases placed⟩
  | cons call calls ih =>
      intro registry final outs entry sound executed isEntry
      obtain ⟨next, out, rest, stepped, tail, rfl⟩ := trace_cons_eq_some.mp executed
      obtain ⟨sound', objects⟩ := Registry.step_objects sound stepped
      obtain ⟨ends, finds⟩ := ih sound' tail (objects ptr entry isEntry)
      refine ⟨ends, fun j name kind default placed isName => ?_⟩
      cases j with
      | zero =>
          obtain rfl : call = _ := Option.some.inj placed
          exact congrArg some (Registry.step_lookup sound isEntry isName stepped)
      | succ j =>
          obtain ⟨sameKind, sameName⟩ := @see_keeps κ _ Value _ codec fromStr ptr entry (call, out)
          have found := finds j name kind default placed (isName.trans sameName.symm)
          rw [sameKind] at found
          exact found

/-- A run, for a variable that is made in it. -/
theorem run_made (calls : List (Call Value)) :
    ∀ {registry final : Registry Value} {outs : List Out}, registry.Sound →
      trace (Registry.step codec fromStr) registry calls = some (final, outs) →
      registry.objects.length ≤ ptr → final.objects[ptr]? = some entry →
      ∃ i name kind default, calls[i]? = some (.lookup name kind default) ∧
        outs[i]? = some (.pointer (some ptr)) ∧ legal name = true ∧
        entry = ((calls.zip outs).drop (i + 1)).foldl (Entry.see codec fromStr ptr)
          (.new name kind default) ∧
        ∀ (j : Nat) (name' : String) (kind' : κ) (default' : Value kind'), i < j →
          calls[j]? = some (.lookup name' kind' default') → lower name' = name →
          outs[j]? = some (.pointer (if kind = kind' then some ptr else none)) := by
  induction calls with
  | nil =>
      intro registry final outs _ executed isNew made
      cases executed
      exact absurd (List.getElem?_eq_some_iff.mp made).1 (Nat.not_lt.mpr isNew)
  | cons call calls ih =>
      intro registry final outs sound executed isNew made
      obtain ⟨next, out, rest, stepped, tail, rfl⟩ := trace_cons_eq_some.mp executed
      obtain ⟨sound', _⟩ := Registry.step_objects sound stepped
      rcases Nat.lt_or_ge ptr next.objects.length with here | later
      · have isEntry := List.getElem?_eq_getElem here
        obtain ⟨name, kind, default, rfl, rfl, isLegal, isEntry'⟩ :=
          Registry.step_new stepped sound isNew isEntry
        obtain ⟨ends, finds⟩ := run_objects calls sound' tail isEntry
        rw [made, isEntry'] at ends
        rw [isEntry'] at finds
        refine ⟨0, name, kind, default, rfl, rfl, isLegal, Option.some.inj ends, ?_⟩
        rintro (_ | j) name' kind' default' after placed isName
        · exact absurd after (Nat.lt_irrefl 0)
        · exact finds j name' kind' default' placed (isName.trans (lower_of_legal isLegal).symm)
      · obtain ⟨i, name, kind, default, placed, shown, isLegal, ends, finds⟩ := ih sound' tail later made
        refine ⟨i + 1, name, kind, default, placed, shown, isLegal, ends, ?_⟩
        rintro (_ | j) name' kind' default' after placed' isName
        · exact absurd after (Nat.not_lt_zero _)
        · exact finds j name' kind' default' (Nat.lt_of_succ_lt_succ after) placed' isName

/-- **The variables do not depend on each other**, in every run: one that there is was made by a lookup of
a legal name, has that lookup's type and name, and stands where the settings of this name and the calls on
it have put it since, in order. A later lookup of the name, in any letter case, returns it or, for another
type, nothing. -/
theorem registry_alone (codec : Codec) (fromStr : ∀ kind, String → Except Thrown (Value kind))
    (calls : List (Call Value)) (final : Registry Value) (outs : List Out)
    (executed : trace (Registry.step codec fromStr) .empty calls = some (final, outs)) (ptr : Nat)
    (entry : Entry Value) (made : final.objects[ptr]? = some entry) :
    ∃ i name kind default, calls[i]? = some (.lookup name kind default) ∧
      outs[i]? = some (.pointer (some ptr)) ∧ legal name = true ∧ entry.kind = kind ∧
      entry.name = name ∧
      entry = ((calls.zip outs).drop (i + 1)).foldl (Entry.see codec fromStr ptr)
        (.new name kind default) ∧
      ∀ (j : Nat) (name' : String) (kind' : κ) (default' : Value kind'), i < j →
        calls[j]? = some (.lookup name' kind' default') → lower name' = name →
        outs[j]? = some (.pointer (if kind = kind' then some ptr else none)) := by
  have sound : (Registry.empty : Registry Value).Sound := ⟨by rintro _ _ ⟨⟩, by rintro _ _ ⟨⟩⟩
  obtain ⟨i, name, kind, default, placed, shown, isLegal, ends, finds⟩ :=
    run_made calls sound executed (Nat.zero_le ptr) made
  obtain ⟨sameKind, sameName⟩ := @foldl_see_keeps κ _ Value _ codec fromStr ptr (.new name kind default)
    ((calls.zip outs).drop (i + 1))
  rw [← ends] at sameKind sameName
  exact ⟨i, name, kind, default, placed, shown, isLegal, sameKind,
    sameName.trans (lower_of_legal isLegal), ends, finds⟩

end Runs

end Source

/-- Two variables of strings, then a document that sets one of them twice, and a name that is no legal
one. -/
def sampleCalls : List (Call fun _ : Unit => String) :=
  [.lookup "a.b" () "x", .lookup "c" () "y",
    .load (.map [(.scalar "a", .map [(.scalar "b", .scalar "1"), (.scalar "B", .scalar "2")]),
      (.scalar "a.b", .scalar "3")])]

theorem registry_alone_document :
    ∃ final outs entry,
      trace (Registry.step sampleCodec fun _ text => .ok text) .empty sampleCalls = some (final, outs) ∧
      final.objects[0]? = some entry ∧ entry.var.val = "3" ∧
      ∃ (i : Nat) (name default : String), sampleCalls[i]? = some (.lookup name () default) ∧
        outs[i]? = some (.pointer (some 0)) ∧ entry.name = name := by
  have runs : ((trace (Registry.step sampleCodec fun _ text => .ok text) .empty sampleCalls).bind
      fun result => (result.1.objects[0]?).map fun entry => entry.var.val) = some "3" := by
    decide +kernel
  obtain ⟨⟨final, outs⟩, executed, mapped⟩ := Option.bind_eq_some_iff.mp runs
  obtain ⟨entry, made, isVal⟩ := Option.map_eq_some_iff.mp mapped
  obtain ⟨i, name, kind, default, placed, shown, _, _, isName, _⟩ :=
    registry_alone sampleCodec (fun _ text => .ok text) sampleCalls final outs executed 0 entry made
  exact ⟨final, outs, entry, executed, made, isVal, i, name, default, placed, shown, isName⟩

end Wyze.Config
