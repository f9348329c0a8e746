/-
**Documents of `yaml-cpp`.**

`Node` is a `YAML::Node` by its value: a scalar, a sequence, a map, the null that a new node is, or
nothing at all, which is what a lookup that fails gives. Building a node starts from null, and the first
`push_back` or `operator[]` makes a sequence or a map of it.

The text of a document belongs to the library: `Codec` has `YAML::Load` and the output operator as
parameters. `pushBack_ofItems` and `set_ofEntries` say what the two kinds of loops build.
-/
import Mathlib.Data.List.Basic
import Mathlib.Data.Option.Basic

namespace Yaml

inductive Node where
  | undefined
  | null
  | scalar (text : String)
  | sequence (items : List Node)
  | map (entries : List (Node × Node))

/-- `YAML::Load`, which may throw, the output operator, and `operator[]` of a map with a number. -/
structure Codec where
  load : String → Option Node
  emit : Node → String
  atNumber : List (Node × Node) → Nat → Node

namespace Node

/-- `push_back`; it throws on a scalar, and no loop here uses it on a map. -/
def pushBack : Node → Node → Option Node
  | .undefined, item | .null, item => some (.sequence [item])
  | .sequence items, item => some (.sequence (items ++ [item]))
  | .scalar _, _ | .map _, _ => none

/-- The first entry with this key gets the value; without one an entry is added. -/
def assign (key : String) (value : Node) : List (Node × Node) → List (Node × Node)
  | [] => [(.scalar key, value)]
  | (.scalar other, old) :: rest =>
    if other = key then (.scalar other, value) :: rest
    else (.scalar other, old) :: assign key value rest
  | entry :: rest => entry :: assign key value rest

/-- `node[key] = value`; it throws on a scalar, and no loop here uses it on a sequence. -/
def set : Node → String → Node → Option Node
  | .undefined, key, value | .null, key, value => some (.map [(.scalar key, value)])
  | .map entries, key, value => some (.map (assign key value entries))
  | .scalar _, _, _ | .sequence _, _, _ => none

/-- The value of the first entry with this key. -/
def lookup (key : String) : List (Node × Node) → Node
  | [] => .undefined
  | (.scalar other, value) :: rest => if other = key then value else lookup key rest
  | _ :: rest => lookup key rest

/-- `node[key]` for reading; it throws on a scalar. -/
def find (key : String) : Node → Option Node
  | .map entries => some (lookup key entries)
  | .undefined | .null | .sequence _ => some .undefined
  | .scalar _ => none

/-- `IsDefined`. -/
def isDefined : Node → Bool
  | .undefined => false
  | .null | .scalar _ | .sequence _ | .map _ => true

/-- `as<std::string>`; it throws on a node that is no scalar. -/
def asString : Node → Option String
  | .scalar text => some text
  | .null => some "null"
  | .undefined | .sequence _ | .map _ => none

/-- `Scalar`. -/
def text : Node → String
  | .scalar text => text
  | .undefined | .null | .sequence _ | .map _ => ""

/-- `size`. -/
def size : Node → Nat
  | .sequence items => items.length
  | .map entries => entries.length
  | .undefined | .null | .scalar _ => 0

/-- `node[i]`. -/
def index (codec : Codec) (i : Nat) : Node → Node
  | .sequence items => items.getD i .undefined
  | .map entries => codec.atNumber entries i
  | .undefined | .null | .scalar _ => .undefined

/-- The pairs of `begin()` to `end()`; the items of a sequence are no pairs, and using one throws. -/
def pairs : Node → Option (List (Node × Node))
  | .map entries => some entries
  | .sequence (_ :: _) => none
  | .sequence [] | .undefined | .null | .scalar _ => some []

/-! ### Loops that build a node -/

/-- What a loop of `push_back` makes of a new node. -/
def ofItems : List Node → Node
  | [] => .null
  | items => .sequence items

/-- What a loop of `node[key] = value` makes of a new node. -/
def ofEntries : List (String × Node) → Node
  | [] => .null
  | entries => .map (entries.map fun entry => (.scalar entry.1, entry.2))

theorem pushBack_ofItems (items : List Node) (item : Node) :
    (ofItems items).pushBack item = some (ofItems (items ++ [item])) := by
  cases items with
  | nil => rfl
  | cons first rest => rfl

theorem assign_of_fresh {key : String} (value : Node) : ∀ {entries : List (String × Node)},
    key ∉ entries.map Prod.fst →
    assign key value (entries.map fun entry => (.scalar entry.1, entry.2)) =
      (entries ++ [(key, value)]).map fun entry => (.scalar entry.1, entry.2)
  | [], _ => rfl
  | (other, old) :: rest, fresh => by
    rw [List.map_cons, List.mem_cons, not_or] at fresh
    rw [List.map_cons, assign, if_neg (Ne.symm fresh.1), assign_of_fresh value fresh.2]
    rfl

theorem set_ofEntries {key : String} (value : Node) {entries : List (String × Node)}
    (fresh : key ∉ entries.map Prod.fst) :
    (ofEntries entries).set key value = some (ofEntries (entries ++ [(key, value)])) := by
  cases entries with
  | nil => rfl
  | cons first rest =>
      exact congrArg (fun entries => some (Node.map entries)) (assign_of_fresh value fresh)

@[simp]
theorem size_ofItems (items : List Node) : (ofItems items).size = items.length := by
  cases items <;> rfl

theorem index_ofItems (codec : Codec) {items : List Node} {i : Nat} (inside : i < items.length) :
    (ofItems items).index codec i = items[i] := by
  cases items with
  | nil => exact absurd inside (Nat.not_lt_zero i)
  | cons first rest =>
      show (first :: rest).getD i .undefined = _
      rw [List.getD_eq_getElem?_getD, List.getElem?_eq_getElem inside]
      rfl

/-- **A loop over `node[i]`** is a loop over the items. -/
theorem foldlM_index (codec : Codec) {γ : Type*} (step : γ → Node → Option γ) (start : γ)
    (items : List Node) :
    (List.range (ofItems items).size).foldlM
      (fun acc i => step acc ((ofItems items).index codec i)) start = items.foldlM step start := by
  have isItems : (List.range items.length).map (fun i => (ofItems items).index codec i) = items := by
    refine List.ext_getElem (by simp) fun i _ inside => ?_
    rw [List.getElem_map, List.getElem_range, index_ofItems codec inside]
  rw [size_ofItems]
  conv_rhs => rw [← isItems, List.foldlM_map]

@[simp]
theorem pairs_ofEntries (entries : List (String × Node)) :
    (ofEntries entries).pairs = some (entries.map fun entry => (.scalar entry.1, entry.2)) := by
  cases entries <;> rfl

end Node

namespace Codec

variable (codec : Codec)

/-- The node comes back when its text is loaded. -/
def Reloads (node : Node) : Prop := codec.load (codec.emit node) = some node

end Codec

end Yaml
