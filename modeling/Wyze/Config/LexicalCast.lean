/-
**`LexicalCast` between containers and text.**

Seven containers are cast to text and back, each through the casts of its element type, so a type is
built from an element type by any nesting of them: `Shape`, with its values `Shape.Value`. The casts of a
sequence differ only in how an item is put into the container, those of a map only in the kind of map.

`cast_value_iff`: a value comes back as `mirror` of it, where every `forward_list` is reversed, so it
comes back as it was exactly when this leaves it alone.
-/
import Mathlib.Data.Finset.Image
import Mathlib.Data.List.Forall2
import Wyze.Lib.YamlNode

namespace Wyze.Config

open Yaml

/-! ### Values -/

/-- A `std::map` or `std::unordered_map` with keys `std::string`. -/
structure Table (α : Type) where
  entries : Finset (String × α)
  functional : ∀ a ∈ entries, ∀ b ∈ entries, a.1 = b.1 → a = b

namespace Table

variable {α : Type}

theorem ext {first second : Table α} (same : first.entries = second.entries) : first = second := by
  cases first
  cases second
  cases same
  rfl

instance [DecidableEq α] : DecidableEq (Table α) := fun first second =>
  decidable_of_iff (first.entries = second.entries) ⟨ext, congrArg entries⟩

def empty : Table α := ⟨∅, nofun⟩

def single (key : String) (value : α) : Table α where
  entries := {(key, value)}
  functional := by
    intro a first b second _
    rw [Finset.mem_singleton] at first second
    rw [first, second]

/-- `insert`: a key that is there keeps its value. -/
def insert [DecidableEq α] (table : Table α) (entry : String × α) : Table α :=
  if fresh : ∀ a ∈ table.entries, a.1 ≠ entry.1 then
    { entries := Insert.insert entry table.entries
      functional := by
        intro a first b second same
        rw [Finset.mem_insert] at first second
        rcases first with rfl | first
        · rcases second with rfl | second
          · rfl
          · exact absurd same.symm (fresh b second)
        · rcases second with rfl | second
          · exact absurd same (fresh a first)
          · exact table.functional a first b second same }
  else table

/-- The table with each value changed. -/
def map {β : Type} [DecidableEq β] (f : α → β) (table : Table α) : Table β where
  entries := table.entries.image fun entry => (entry.1, f entry.2)
  functional := by
    intro a first b second same
    rw [Finset.mem_image] at first second
    obtain ⟨a, first, rfl⟩ := first
    obtain ⟨b, second, rfl⟩ := second
    rw [table.functional a first b second same]

end Table

/-- The types of configuration variables over an element type. -/
inductive Shape where
  | elem
  | vector (item : Shape)
  | list (item : Shape)
  | forwardList (item : Shape)
  | set (item : Shape)
  | unorderedSet (item : Shape)
  | map (item : Shape)
  | unorderedMap (item : Shape)
deriving DecidableEq

namespace Shape

/-- The values of a type. Of a set or a map only its members count, as for `==`. -/
def Value (E : Type) : Shape → Type
  | .elem => E
  | .vector item | .list item | .forwardList item => List (Value E item)
  | .set item | .unorderedSet item => Finset (Value E item)
  | .map item | .unorderedMap item => Table (Value E item)

instance decEq {E : Type} [DecidableEq E] : (shape : Shape) → DecidableEq (shape.Value E)
  | .elem => inferInstanceAs (DecidableEq E)
  | .vector item | .list item | .forwardList item =>
    have := decEq (E := E) item
    inferInstanceAs (DecidableEq (List (item.Value E)))
  | .set item | .unorderedSet item =>
    have := decEq (E := E) item
    inferInstanceAs (DecidableEq (Finset (item.Value E)))
  | .map item | .unorderedMap item =>
    have := decEq (E := E) item
    inferInstanceAs (DecidableEq (Table (item.Value E)))

end Shape

/-- The order in which a set is iterated: every member once. -/
structure Iteration (α : Type) where
  list : Finset α → List α
  perm : ∀ members, (list members : Multiset α) = members.val

namespace Iteration

variable {α : Type} (order : Iteration α) {members : Finset α}

theorem mem_list {a : α} : a ∈ order.list members ↔ a ∈ members := by
  rw [← Multiset.mem_coe, order.perm, Finset.mem_val]

theorem nodup_list : (order.list members).Nodup := by
  rw [← Multiset.coe_nodup, order.perm]
  exact members.nodup

end Iteration

/-- How the containers are iterated that have no positions. -/
structure Orders (E : Type) where
  set : ∀ item : Shape, Iteration (item.Value E)
  unorderedSet : ∀ item : Shape, Iteration (item.Value E)
  map : ∀ item : Shape, Iteration (String × item.Value E)
  unorderedMap : ∀ item : Shape, Iteration (String × item.Value E)

/-! ### The casts -/

/-- The casts of a type: `LexicalCast<T, std::string>` and `LexicalCast<std::string, T>`; `none` is an
exception. -/
structure LexicalCast (α : Type) where
  toString : α → Option String
  fromString : String → Option α

section Casts

variable (codec : Codec) {α : Type} (cast : LexicalCast α)

/-- `YAML::Load(LexicalCast<T, std::string>()(i))`. -/
def nodeOf (i : α) : Option Yaml.Node := (cast.toString i).bind codec.load

/-- The loop of `push_back`. -/
def sequenceNode (items : List α) : Option Yaml.Node :=
  items.foldlM (fun node i => (nodeOf codec cast i).bind node.pushBack) .null

/-- The loop over `node[i]`, with what puts an item into the container. -/
def sequenceFromString {γ : Type} (insert : γ → α → γ) (empty : γ) (val : String) : Option γ :=
  (codec.load val).bind fun node =>
    (List.range node.size).foldlM
      (fun vec i => (cast.fromString (codec.emit (node.index codec i))).map (insert vec)) empty

/-- The loop of `node[i.first] = …`. -/
def mappingNode (entries : List (String × α)) : Option Yaml.Node :=
  entries.foldlM (fun node i => (nodeOf codec cast i.2).bind (node.set i.1)) .null

/-- The loop over the pairs of the node. -/
def mappingFromString [DecidableEq α] (val : String) : Option (Table α) :=
  (codec.load val).bind fun node => node.pairs.bind fun pairs =>
    pairs.foldlM (fun vec ite => (cast.fromString (codec.emit ite.2)).map fun second =>
      vec.insert (ite.1.text, second)) .empty

/-- `std::vector<T>`. -/
def vectorCast : LexicalCast (List α) where
  toString v := (sequenceNode codec cast v).map codec.emit
  fromString := sequenceFromString codec cast (fun vec i => vec ++ [i]) []

/-- `std::list<T>`. -/
def listCast : LexicalCast (List α) where
  toString v := (sequenceNode codec cast v).map codec.emit
  fromString := sequenceFromString codec cast (fun vec i => vec ++ [i]) []

/-- `std::forward_list<T>`: the items are read with `push_front`. -/
def forwardListCast : LexicalCast (List α) where
  toString v := (sequenceNode codec cast v).map codec.emit
  fromString := sequenceFromString codec cast (fun vec i => i :: vec) []

variable [DecidableEq α]

/-- `std::set<T>`. -/
def setCast (order : Iteration α) : LexicalCast (Finset α) where
  toString v := (sequenceNode codec cast (order.list v)).map codec.emit
  fromString := sequenceFromString codec cast (fun vec i => insert i vec) ∅

/-- `std::unordered_set<T>`. -/
def unorderedSetCast (order : Iteration α) : LexicalCast (Finset α) where
  toString v := (sequenceNode codec cast (order.list v)).map codec.emit
  fromString := sequenceFromString codec cast (fun vec i => insert i vec) ∅

/-- `std::map<std::string, T>`. -/
def mapCast (order : Iteration (String × α)) : LexicalCast (Table α) where
  toString v := (mappingNode codec cast (order.list v.entries)).map codec.emit
  fromString := mappingFromString codec cast

/-- `std::unordered_map<std::string, T>`. -/
def unorderedMapCast (order : Iteration (String × α)) : LexicalCast (Table α) where
  toString v := (mappingNode codec cast (order.list v.entries)).map codec.emit
  fromString := mappingFromString codec cast

end Casts

namespace Shape

variable {E : Type} [DecidableEq E] (codec : Codec) (orders : Orders E) (elem : LexicalCast E)

/-- The casts of a type, from those of its element type. -/
def cast : (shape : Shape) → LexicalCast (shape.Value E)
  | .elem => elem
  | .vector item => vectorCast codec (cast item)
  | .list item => listCast codec (cast item)
  | .forwardList item => forwardListCast codec (cast item)
  | .set item => setCast codec (cast item) (orders.set item)
  | .unorderedSet item => unorderedSetCast codec (cast item) (orders.unorderedSet item)
  | .map item => mapCast codec (cast item) (orders.map item)
  | .unorderedMap item => unorderedMapCast codec (cast item) (orders.unorderedMap item)

/-- The value with every `forward_list` in it reversed. -/
def mirror : (shape : Shape) → shape.Value E → shape.Value E
  | .elem, x => x
  | .vector item, v | .list item, v => List.map (mirror item) v
  | .forwardList item, v => (List.map (mirror item) v).reverse
  | .set item, v | .unorderedSet item, v => Finset.image (mirror item) v
  | .map item, v | .unorderedMap item, v => Table.map (mirror item) v

end Shape

/-! ### One cast of a container -/

/-- The value is cast to a text that the library keeps as it is, and read back as the other value. -/
def Reads (codec : Codec) {α : Type} (cast : LexicalCast α) (x y : α) : Prop :=
  ∃ text node, cast.toString x = some text ∧ codec.load text = some node ∧ codec.emit node = text ∧
    cast.fromString text = some y

section Container

variable {codec : Codec} {α : Type} {cast : LexicalCast α} {f : α → α}

/-- The node of an item that is read back. -/
theorem Reads.node {x y : α} (reads : Reads codec cast x y) :
    ∃ node, nodeOf codec cast x = some node ∧ cast.fromString (codec.emit node) = some y := by
  obtain ⟨text, node, written, loaded, same, read⟩ := reads
  refine ⟨node, ?_, ?_⟩
  · rw [nodeOf, written]
    exact loaded
  · rw [same]
    exact read

/-- One choice for each item. -/
theorem exists_forall₂ {β γ : Type} {R : β → γ → Prop} {items : List β}
    (each : ∀ i ∈ items, ∃ c, R i c) : ∃ chosen, List.Forall₂ R items chosen := by
  induction items with
  | nil => exact ⟨[], .nil⟩
  | cons i items ih =>
      obtain ⟨⟨c, here⟩, rest⟩ := List.forall_mem_cons.mp each
      obtain ⟨chosen, others⟩ := ih rest
      exact ⟨c :: chosen, .cons here others⟩

theorem sequenceNode_eq {items : List α} {nodes : List Yaml.Node}
    (each : List.Forall₂ (fun i node => nodeOf codec cast i = some node) items nodes) :
    sequenceNode codec cast items = some (Node.ofItems nodes) := by
  have appended : ∀ {items : List α} {nodes : List Yaml.Node} (before : List Yaml.Node),
      List.Forall₂ (fun i node => nodeOf codec cast i = some node) items nodes →
      items.foldlM (fun node i => (nodeOf codec cast i).bind node.pushBack) (Node.ofItems before) =
        some (Node.ofItems (before ++ nodes)) := by
    intro items nodes before each
    induction each generalizing before with
    | nil => rw [List.append_nil]; rfl
    | cons here _ ih =>
        rw [List.foldlM_cons, here, Option.bind_some, Node.pushBack_ofItems, Option.bind_eq_bind,
          Option.bind_some, ih, List.append_assoc]
        rfl
  exact appended [] each

/-- **A sequence is read item by item**, in the order in which it was written. -/
theorem sequenceFromString_eq {γ : Type} (insert : γ → α → γ) (empty : γ) {items : List α}
    {nodes : List Yaml.Node} (reloads : codec.Reloads (Node.ofItems nodes))
    (each : List.Forall₂ (fun i node => cast.fromString (codec.emit node) = some (f i)) items nodes) :
    sequenceFromString codec cast insert empty (codec.emit (Node.ofItems nodes)) =
      some ((items.map f).foldl insert empty) := by
  rw [sequenceFromString, reloads, Option.bind_some,
    Node.foldlM_index codec (fun vec node => (cast.fromString (codec.emit node)).map (insert vec))]
  clear reloads
  induction each generalizing empty with
  | nil => rfl
  | cons here _ ih =>
      rw [List.foldlM_cons, here, Option.map_some, Option.bind_eq_bind, Option.bind_some, ih]
      rfl

theorem mappingNode_eq {entries : List (String × α)} {named : List (String × Yaml.Node)}
    (distinct : (entries.map Prod.fst).Nodup)
    (each : List.Forall₂ (fun entry name => name.1 = entry.1 ∧
      nodeOf codec cast entry.2 = some name.2) entries named) :
    mappingNode codec cast entries = some (Node.ofEntries named) := by
  have appended : ∀ {entries : List (String × α)} {named : List (String × Yaml.Node)}
      (before : List (String × Yaml.Node)),
      (before.map Prod.fst ++ entries.map Prod.fst).Nodup →
      List.Forall₂ (fun entry name => name.1 = entry.1 ∧
        nodeOf codec cast entry.2 = some name.2) entries named →
      entries.foldlM (fun node i => (nodeOf codec cast i.2).bind (node.set i.1))
        (Node.ofEntries before) = some (Node.ofEntries (before ++ named)) := by
    intro entries named before distinct each
    induction each generalizing before with
    | nil => rw [List.append_nil]; rfl
    | @cons entry name entries named here _ ih =>
        obtain ⟨isKey, here⟩ := here
        rw [List.map_cons, ← isKey] at distinct
        have fresh : name.1 ∉ before.map Prod.fst := fun mem =>
          (List.nodup_append.mp distinct).2.2 name.1 mem name.1 List.mem_cons_self rfl
        rw [List.foldlM_cons, here, Option.bind_some, ← isKey, Node.set_ofEntries name.2 fresh,
          Option.bind_eq_bind, Option.bind_some, List.append_cons before name named]
        refine ih (before ++ [name]) ?_
        rwa [List.map_append, List.map_singleton, ← List.append_cons]
  exact appended [] distinct each

/-- **A map is read entry by entry.** -/
theorem mappingFromString_eq [DecidableEq α] {entries : List (String × α)}
    {named : List (String × Yaml.Node)} (reloads : codec.Reloads (Node.ofEntries named))
    (each : List.Forall₂ (fun entry name => name.1 = entry.1 ∧
      cast.fromString (codec.emit name.2) = some (f entry.2)) entries named) :
    mappingFromString codec cast (codec.emit (Node.ofEntries named)) =
      some ((entries.map fun entry => (entry.1, f entry.2)).foldl Table.insert Table.empty) := by
  rw [mappingFromString, reloads, Option.bind_some, Node.pairs_ofEntries, Option.bind_some,
    List.foldlM_map]
  clear reloads
  generalize Table.empty = table
  induction each generalizing table with
  | nil => rfl
  | cons here _ ih =>
      rw [List.foldlM_cons, here.2, Option.map_some, Option.bind_eq_bind, Option.bind_some, ih,
        List.map_cons, List.foldl_cons, ← here.1]
      rfl

/-! ### What the insertions make -/

theorem foldl_push_back (items before : List α) :
    items.foldl (fun vec i => vec ++ [i]) before = before ++ items := by
  induction items generalizing before with
  | nil => exact (List.append_nil _).symm
  | cons i items ih => rw [List.foldl_cons, ih, ← List.append_cons]

theorem foldl_push_front (items before : List α) :
    items.foldl (fun vec i => i :: vec) before = items.reverse ++ before := by
  induction items generalizing before with
  | nil => rfl
  | cons i items ih => rw [List.foldl_cons, ih, List.reverse_cons, List.append_assoc]; rfl

variable [DecidableEq α]

theorem foldl_insert (items : List α) (before : Finset α) :
    items.foldl (fun vec i => insert i vec) before = before ∪ items.toFinset := by
  induction items generalizing before with
  | nil => exact (Finset.union_empty _).symm
  | cons i items ih =>
      rw [List.foldl_cons, ih, List.toFinset_cons, Finset.insert_union, Finset.union_insert]

theorem foldl_table_insert {entries : List (String × α)} (before : Table α)
    (distinct : (entries.map Prod.fst).Nodup)
    (fresh : ∀ a ∈ before.entries, a.1 ∉ entries.map Prod.fst) :
    (entries.foldl Table.insert before).entries = before.entries ∪ entries.toFinset := by
  induction entries generalizing before with
  | nil => exact (Finset.union_empty _).symm
  | cons entry entries ih =>
      obtain ⟨first, rest⟩ := List.nodup_cons.mp distinct
      have isNew : ∀ a ∈ before.entries, a.1 ≠ entry.1 := fun a mem same =>
        fresh a mem (same ▸ List.mem_cons_self)
      have inserted : (before.insert entry).entries = insert entry before.entries := by
        rw [Table.insert, dif_pos isNew]
      rw [List.foldl_cons, ih (before.insert entry) rest, inserted, List.toFinset_cons,
        Finset.insert_union, Finset.union_insert]
      intro a mem
      rw [inserted, Finset.mem_insert] at mem
      rcases mem with rfl | mem
      · exact first
      · exact fun later => fresh a mem (List.mem_cons_of_mem _ later)

end Container

/-! ### A cast of each container -/

section Reading

/-- The node that is built for the items comes back, and so does what is built for each of them. -/
def KeptItems (codec : Codec) {α : Type} (cast : LexicalCast α) (kept : α → Prop) (items : List α) :
    Prop :=
  (∀ i ∈ items, kept i) ∧ ∀ node ∈ sequenceNode codec cast items, codec.Reloads node

/-- The node that is built for the entries comes back, and so does what is built for each value. -/
def KeptEntries (codec : Codec) {α : Type} (cast : LexicalCast α) (kept : α → Prop)
    (entries : List (String × α)) : Prop :=
  (∀ entry ∈ entries, kept entry.2) ∧ ∀ node ∈ mappingNode codec cast entries, codec.Reloads node

variable {codec : Codec} {α : Type} {cast : LexicalCast α} {f : α → α}

/-- **A sequence is written and read**: its items are put in one by one, each as it is read. -/
theorem reads_sequence {γ : Type} (insert : γ → α → γ) (empty : γ) {items : List α}
    (reads : ∀ i ∈ items, Reads codec cast i (f i))
    (reloads : ∀ node ∈ sequenceNode codec cast items, codec.Reloads node) :
    ∃ text node, (sequenceNode codec cast items).map codec.emit = some text ∧
      codec.load text = some node ∧ codec.emit node = text ∧
      sequenceFromString codec cast insert empty text = some ((items.map f).foldl insert empty) := by
  obtain ⟨nodes, each⟩ := exists_forall₂ fun i mem => (reads i mem).node
  have isNode := sequenceNode_eq (each.imp fun _ _ here => here.1)
  have reload := reloads _ isNode
  rw [isNode]
  exact ⟨_, _, rfl, reload, rfl, sequenceFromString_eq insert empty reload
    (each.imp fun _ _ here => here.2)⟩

/-- A sequence that keeps its order. -/
theorem reads_list {items : List α} (reads : ∀ i ∈ items, Reads codec cast i (f i))
    (reloads : ∀ node ∈ sequenceNode codec cast items, codec.Reloads node) :
    Reads codec (vectorCast codec cast) items (items.map f) := by
  obtain ⟨text, node, written, loaded, same, read⟩ :=
    reads_sequence (fun vec i => vec ++ [i]) [] reads reloads
  rw [foldl_push_back, List.nil_append] at read
  exact ⟨text, node, written, loaded, same, read⟩

/-- **A `forward_list` comes back reversed.** -/
theorem reads_forwardList {items : List α} (reads : ∀ i ∈ items, Reads codec cast i (f i))
    (reloads : ∀ node ∈ sequenceNode codec cast items, codec.Reloads node) :
    Reads codec (forwardListCast codec cast) items (items.map f).reverse := by
  obtain ⟨text, node, written, loaded, same, read⟩ :=
    reads_sequence (fun vec i => i :: vec) [] reads reloads
  rw [foldl_push_front, List.append_nil] at read
  exact ⟨text, node, written, loaded, same, read⟩

variable [DecidableEq α]

/-- A set, in whatever order it is iterated. -/
theorem reads_set (order : Iteration α) {members : Finset α}
    (reads : ∀ i ∈ order.list members, Reads codec cast i (f i))
    (reloads : ∀ node ∈ sequenceNode codec cast (order.list members), codec.Reloads node) :
    Reads codec (setCast codec cast order) members (members.image f) := by
  obtain ⟨text, node, written, loaded, same, read⟩ :=
    reads_sequence (fun (vec : Finset α) i => insert i vec) ∅ reads reloads
  have image : ((order.list members).map f).toFinset = members.image f := by
    ext i
    simp [order.mem_list]
  rw [foldl_insert, Finset.empty_union, image] at read
  exact ⟨text, node, written, loaded, same, read⟩

/-- A map, in whatever order it is iterated. -/
theorem reads_map (order : Iteration (String × α)) {table : Table α}
    (reads : ∀ entry ∈ order.list table.entries, Reads codec cast entry.2 (f entry.2))
    (reloads : ∀ node ∈ mappingNode codec cast (order.list table.entries), codec.Reloads node) :
    Reads codec (mapCast codec cast order) table (table.map f) := by
  obtain ⟨named, each⟩ : ∃ named : List (String × Yaml.Node), List.Forall₂ (fun entry name =>
      name.1 = entry.1 ∧ nodeOf codec cast entry.2 = some name.2 ∧
        cast.fromString (codec.emit name.2) = some (f entry.2)) (order.list table.entries) named := by
    refine exists_forall₂ fun entry mem => ?_
    obtain ⟨node, isNode, read⟩ := (reads entry mem).node
    exact ⟨(entry.1, node), rfl, isNode, read⟩
  have distinct : ((order.list table.entries).map Prod.fst).Nodup := by
    refine order.nodup_list.map_on fun a first b second same => ?_
    exact table.functional a (order.mem_list.mp first) b (order.mem_list.mp second) same
  have isNode := mappingNode_eq distinct (each.imp fun _ _ here => ⟨here.1, here.2.1⟩)
  have reload := reloads _ isNode
  have read := mappingFromString_eq reload (each.imp fun _ _ here => ⟨here.1, here.2.2⟩)
  refine ⟨_, _, ?_, reload, rfl, read.trans (congrArg some (Table.ext ?_))⟩
  · exact congrArg (Option.map codec.emit) isNode
  · rw [foldl_table_insert Table.empty]
    · ext entry
      simp [Table.empty, Table.map, order.mem_list]
    · rw [List.map_map]
      exact distinct
    · exact nofun

end Reading

/-! ### All types -/

namespace Shape

variable {E : Type} [DecidableEq E] (codec : Codec) (orders : Orders E) (elem : LexicalCast E)

/-- **The library is inverse on what is built for the value**: the node built for each container in it
comes back when its text is loaded, and the text of each element when its node is written. -/
def Kept : (shape : Shape) → shape.Value E → Prop
  | .elem, x => ∀ text ∈ elem.toString x, ∃ node, codec.load text = some node ∧ codec.emit node = text
  | .vector item, v | .list item, v | .forwardList item, v =>
    KeptItems codec (cast codec orders elem item) (Kept item) v
  | .set item, v => KeptItems codec (cast codec orders elem item) (Kept item) ((orders.set item).list v)
  | .unorderedSet item, v =>
    KeptItems codec (cast codec orders elem item) (Kept item) ((orders.unorderedSet item).list v)
  | .map item, v =>
    KeptEntries codec (cast codec orders elem item) (Kept item)
      ((orders.map item).list (Table.entries v))
  | .unorderedMap item, v =>
    KeptEntries codec (cast codec orders elem item) (Kept item)
      ((orders.unorderedMap item).list (Table.entries v))

variable {codec orders elem}

/-- **Every value is read back as its mirror image.** -/
theorem reads_mirror
    (inverse : ∀ x, ∃ text, elem.toString x = some text ∧ elem.fromString text = some x) :
    ∀ (shape : Shape) {v : shape.Value E}, Kept codec orders elem shape v →
      Reads codec (cast codec orders elem shape) v (mirror shape v)
  | .elem, x, kept => by
    obtain ⟨text, written, read⟩ := inverse x
    obtain ⟨node, loaded, same⟩ := kept text written
    exact ⟨text, node, written, loaded, same, read⟩
  | .vector item, _, kept => reads_list (fun i mem => reads_mirror inverse item (kept.1 i mem)) kept.2
  | .list item, _, kept => reads_list (fun i mem => reads_mirror inverse item (kept.1 i mem)) kept.2
  | .forwardList item, _, kept =>
    reads_forwardList (fun i mem => reads_mirror inverse item (kept.1 i mem)) kept.2
  | .set item, _, kept =>
    reads_set (orders.set item) (fun i mem => reads_mirror inverse item (kept.1 i mem)) kept.2
  | .unorderedSet item, _, kept =>
    reads_set (orders.unorderedSet item) (fun i mem => reads_mirror inverse item (kept.1 i mem)) kept.2
  | .map item, _, kept =>
    reads_map (orders.map item) (fun entry mem => reads_mirror inverse item (kept.1 entry mem)) kept.2
  | .unorderedMap item, _, kept =>
    reads_map (orders.unorderedMap item)
      (fun entry mem => reads_mirror inverse item (kept.1 entry mem)) kept.2

/-- No `forward_list` in the type. -/
def plain : Shape → Bool
  | .elem => true
  | .forwardList _ => false
  | .vector item | .list item | .set item | .unorderedSet item | .map item | .unorderedMap item =>
    plain item

omit [DecidableEq E] in
theorem table_map_id [DecidableEq E] {item : Shape} (table : Table (item.Value E))
    (same : mirror (E := E) item = id) : Table.map (mirror item) table = table := by
  refine Table.ext ?_
  rw [same]
  exact Finset.image_id

/-- Without a `forward_list` nothing is reversed. -/
theorem mirror_of_plain : ∀ {shape : Shape}, shape.plain = true → mirror (E := E) shape = id := by
  intro shape
  induction shape with
  | elem => exact fun _ => rfl
  | forwardList item => exact nofun
  | vector item ih | list item ih =>
      intro isPlain
      funext v
      exact (congrArg (List.map · v) (ih isPlain)).trans (List.map_id v)
  | set item ih | unorderedSet item ih =>
      intro isPlain
      funext v
      exact (congrArg (Finset.image · v) (ih isPlain)).trans Finset.image_id
  | map item ih | unorderedMap item ih =>
      intro isPlain
      funext v
      exact table_map_id v (ih isPlain)

end Shape

/-! ### Variables -/

section Variables

variable {α : Type} [DecidableEq α]

/-- `ConfigVar::toString`: an exception is caught. -/
def toString (cast : LexicalCast α) (val : α) : String := (cast.toString val).getD ""

/-- `ConfigVar::setVal`, with no listener. -/
def setVal (val v : α) : α := if v = val then val else v

/-- `ConfigVar::fromString`: the value it leaves and what it returns. -/
def fromString (cast : LexicalCast α) (val : α) (text : String) : α × Bool :=
  match cast.fromString text with
  | some v => (setVal val v, true)
  | none => (val, false)

end Variables

/-- **A value comes back exactly when reversing its `forward_list`s leaves it as it is.** For every type
built from vector, list, forward_list, set, unordered_set, map and unordered_map over an element type
whose casts are inverse, and every value of it on which the library is inverse, the text of each element
included, which has to come out as it went in when it is loaded as a node and that node is written (the
empty text and one with a blank before it do not): the two casts give the value back, and
`fromString(toString())` leaves the variable as it was, exactly when every `forward_list` in the value may
be reversed without changing it. -/
theorem cast_value_iff {E : Type} [DecidableEq E] {codec : Codec} {orders : Orders E}
    {elem : LexicalCast E}
    (inverse : ∀ x, ∃ text, elem.toString x = some text ∧ elem.fromString text = some x)
    (shape : Shape) (v : shape.Value E) (kept : shape.Kept codec orders elem v) :
    (((shape.cast codec orders elem).toString v).bind (shape.cast codec orders elem).fromString =
        some v ↔ shape.mirror v = v) ∧
      (fromString (shape.cast codec orders elem) v (toString (shape.cast codec orders elem) v) =
        (v, true) ↔ shape.mirror v = v) := by
  obtain ⟨text, node, written, _, _, read⟩ := shape.reads_mirror inverse kept
  refine ⟨?_, ?_⟩
  · rw [written, Option.bind_some, read, Option.some.injEq]
  · rw [fromString, toString, written, Option.getD_some, read]
    simp only [setVal, Prod.mk.injEq, and_true]
    split
    · rename_i same
      exact iff_of_true rfl same
    · exact Iff.rfl

section Samples

/-- The library on plain words, the sequence `a`, `b` and a map with this one value. -/
def sampleCodec : Codec where
  load text :=
    if text = "- a\n- b" then some (.sequence [.scalar "a", .scalar "b"])
    else if text = "k:\n  - a\n  - b" then
      some (.map [(.scalar "k", .sequence [.scalar "a", .scalar "b"])])
    else some (.scalar text)
  emit
    | .scalar text => text
    | .sequence _ => "- a\n- b"
    | .map _ => "k:\n  - a\n  - b"
    | .undefined | .null => ""
  atNumber _ _ := .undefined

/-- The casts of `std::string`. -/
def stringCast : LexicalCast String := ⟨some, some⟩

/-- Some order for each container. -/
noncomputable def someOrders : Orders String where
  set _ := ⟨Finset.toList, Finset.coe_toList⟩
  unorderedSet _ := ⟨Finset.toList, Finset.coe_toList⟩
  map _ := ⟨Finset.toList, Finset.coe_toList⟩
  unorderedMap _ := ⟨Finset.toList, Finset.coe_toList⟩

theorem stringCast_inverse (x : String) :
    ∃ text, stringCast.toString x = some text ∧ stringCast.fromString text = some x :=
  ⟨x, rfl, rfl⟩

theorem kept_words : ∀ i ∈ ["a", "b"], Shape.Kept sampleCodec someOrders stringCast .elem i := by
  intro i mem text same
  cases same
  refine ⟨.scalar i, ?_, rfl⟩
  rcases List.mem_cons.mp mem with rfl | mem
  · rfl
  · rw [List.mem_singleton.mp mem]
    rfl

theorem kept_list : KeptItems sampleCodec stringCast
    (Shape.Kept sampleCodec someOrders stringCast .elem) ["a", "b"] := by
  refine ⟨kept_words, fun node built => ?_⟩
  obtain rfl : Node.sequence [.scalar "a", .scalar "b"] = node := Option.some.inj built
  rfl

/-- `{"k": ["a", "b"]}`. -/
def sampleMap : (Shape.map (.vector .elem)).Value String := Table.single "k" ["a", "b"]

/-- A map with a vector of strings comes back. -/
theorem cast_value_iff_map :
    ((Shape.map (.vector .elem)).cast sampleCodec someOrders stringCast).toString sampleMap =
        some "k:\n  - a\n  - b" ∧
      ((Shape.map (.vector .elem)).cast sampleCodec someOrders stringCast).fromString
        "k:\n  - a\n  - b" = some sampleMap := by
  have listed : (someOrders.map (.vector .elem)).list (Table.entries sampleMap) =
      [("k", ["a", "b"])] := Finset.toList_singleton _
  have written : ((Shape.map (.vector .elem)).cast sampleCodec someOrders stringCast).toString
      sampleMap = some "k:\n  - a\n  - b" := by
    show (mappingNode sampleCodec _ ((someOrders.map (.vector .elem)).list
      (Table.entries sampleMap))).map _ = _
    rw [listed]
    rfl
  have kept : Shape.Kept sampleCodec someOrders stringCast (.map (.vector .elem)) sampleMap := by
    show KeptEntries _ _ _ ((someOrders.map (.vector .elem)).list (Table.entries sampleMap))
    rw [listed]
    refine ⟨List.forall_mem_singleton.mpr kept_list, fun node isNode => ?_⟩
    obtain rfl : Node.map [(.scalar "k", .sequence [.scalar "a", .scalar "b"])] = node :=
      Option.some.inj isNode
    rfl
  have back := (cast_value_iff stringCast_inverse (.map (.vector .elem)) sampleMap kept).1.mpr
    (congrFun (Shape.mirror_of_plain rfl) _)
  rw [written] at back
  exact ⟨written, back⟩

/-- **A `forward_list` comes back reversed**: the casts of a list of two strings are not inverse, and
`fromString(toString())` changes the variable. -/
theorem forward_list_reversed :
    Shape.Kept sampleCodec someOrders stringCast (.forwardList .elem) ["a", "b"] ∧
      (((Shape.forwardList .elem).cast sampleCodec someOrders stringCast).toString ["a", "b"]).bind
        ((Shape.forwardList .elem).cast sampleCodec someOrders stringCast).fromString =
          some ["b", "a"] ∧
      fromString ((Shape.forwardList .elem).cast sampleCodec someOrders stringCast) ["a", "b"]
        (toString ((Shape.forwardList .elem).cast sampleCodec someOrders stringCast) ["a", "b"]) ≠
          (["a", "b"], true) := by
  refine ⟨kept_list, rfl, fun same => ?_⟩
  have changed : (["b", "a"] : List String) = ["a", "b"] := congrArg Prod.fst same
  exact absurd changed (by decide)

end Samples

end Wyze.Config
