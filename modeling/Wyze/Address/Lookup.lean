/-
**What `Address::Lookup` hands to `getaddrinfo`.**

A pointer into the host is the bytes from it on; `getaddrinfo` reads its two arguments up to the byte 0.
Two scanners share the pointer `service`: the first looks for brackets, the second, for as long as
there is no node, for a colon, and leaves its pointer behind when there is another colon.

* `lookup_iff`: which of the expected pairs are handed over.
* `lookup_literal`: a bare literal is handed over with a service.
-/
import Mathlib.Data.List.Basic
import Mathlib.Data.List.TakeWhile

namespace Wyze.Address

/-- `':'`, `'['` and `']'`. -/
def colon : UInt8 := 58

def openBracket : UInt8 := 91

def closeBracket : UInt8 := 93

/-- What a callee reads of a C string. -/
def cString (bytes : List UInt8) : List UInt8 := bytes.takeWhile (· ≠ 0)

/-- `memchr` over the whole of the bytes. -/
def memchr (byte : UInt8) : List UInt8 → Option (List UInt8)
  | [] => none
  | first :: rest => if first = byte then some (first :: rest) else memchr byte rest

/-- The first scanner: node and service of a host in brackets. -/
def bracketNode (host : List UInt8) : List UInt8 × Option (List UInt8) :=
  if host.head? = some openBracket then
    match memchr closeBracket host.tail with
    | none => ([], none)
    | some endipv6 =>
      let node := (host.drop 1).take (host.length - endipv6.length - 1)
      if 3 ≤ (cString endipv6).length ∧ endipv6.tail.head? = some colon then
        (node, some (endipv6.drop 2))
      else (node, none)
  else ([], none)

/-- The second scanner: node and service of a host with a colon. -/
def colonNode (host : List UInt8) : List UInt8 × Option (List UInt8) :=
  match memchr colon host with
  | none => ([], none)
  | some service =>
    match memchr colon service.tail with
    | some _ => ([], some service)
    | none => (host.take (host.length - service.length), some service.tail)

/-- The first two arguments of `getaddrinfo` in `Lookup`. -/
def lookupArgs (host : List UInt8) : List UInt8 × Option (List UInt8) :=
  let (node, service) := bracketNode host
  let (node, service) := if node.isEmpty then colonNode host else (node, service)
  let node := if node.isEmpty then host else node
  (cString node, service.map cString)

/-! ### Searching a byte -/

variable {byte : UInt8} {host node rest before after bytes : List UInt8}
  {service : Option (List UInt8)}

theorem memchr_append (absent : byte ∉ before) :
    memchr byte (before ++ byte :: after) = some (byte :: after) := by
  induction before with
  | nil => exact if_pos rfl
  | cons first before ih =>
      obtain ⟨here, later⟩ := List.ne_and_not_mem_of_not_mem_cons absent
      rw [List.cons_append, memchr, if_neg (Ne.symm here), ih later]

theorem memchr_eq_none (absent : byte ∉ bytes) : memchr byte bytes = none := by
  induction bytes with
  | nil => rfl
  | cons first bytes ih =>
      obtain ⟨here, later⟩ := List.ne_and_not_mem_of_not_mem_cons absent
      rw [memchr, if_neg (Ne.symm here), ih later]

/-- The first place of a byte. -/
theorem eq_append_of_memchr {found : List UInt8} (isFound : memchr byte bytes = some found) :
    ∃ before after, bytes = before ++ byte :: after ∧ byte ∉ before ∧ found = byte :: after := by
  have member : byte ∈ bytes := by
    by_contra absent
    rw [memchr_eq_none absent] at isFound
    cases isFound
  obtain ⟨before, after, rfl, absent⟩ := List.eq_append_cons_of_mem member
  rw [memchr_append absent] at isFound
  exact ⟨before, after, rfl, absent, (Option.some.inj isFound).symm⟩

theorem cString_eq_iff : cString bytes = bytes ↔ 0 ∉ bytes := by
  rw [cString, List.takeWhile_eq_self_iff]
  simp only [ne_eq, decide_not, Bool.not_eq_true', decide_eq_false_iff_not]
  exact ⟨fun all member => all 0 member rfl, fun absent byte member zero => absent (zero ▸ member)⟩

theorem cString_length_le (bytes : List UInt8) : (cString bytes).length ≤ bytes.length :=
  (List.takeWhile_sublist _).length_le

theorem cString_cons (nonzero : byte ≠ 0) : cString (byte :: bytes) = byte :: cString bytes := by
  rw [cString, List.takeWhile_cons, if_pos (decide_eq_true nonzero)]
  rfl

/-! ### The expected pairs -/

/-- What stands in the brackets at the start of a host, and what follows them. -/
def brackets (host : List UInt8) : Option (List UInt8 × List UInt8) :=
  if host.head? = some openBracket then
    (memchr closeBracket host.tail).map fun found =>
      (host.tail.take (host.tail.length - found.length), found.tail)
  else none

/-- The host is not `[node]`, `[node]:` or `[node]:service`. -/
def Bare (host : List UInt8) : Prop :=
  ∀ node rest, brackets host = some (node, rest) → rest ≠ [] ∧ rest.head? ≠ some colon

/-- Node and service that a host stands for, by the first of the forms that fits. -/
inductive Expected : List UInt8 → List UInt8 → Option (List UInt8) → Prop where
  | bracketsService (node service : List UInt8) (first : closeBracket ∉ node) (nonempty : service ≠ []) :
    Expected (openBracket :: (node ++ closeBracket :: colon :: service)) node (some service)
  | bracketsOnly (node : List UInt8) (first : closeBracket ∉ node) :
    Expected (openBracket :: (node ++ [closeBracket])) node none
  | bracketsColon (node : List UInt8) (first : closeBracket ∉ node) :
    Expected (openBracket :: (node ++ [closeBracket, colon])) node none
  | service (node service : List UInt8) (someNode : node ≠ []) (someService : service ≠ [])
    (inNode : colon ∉ node) (inService : colon ∉ service)
    (bare : Bare (node ++ colon :: service)) :
    Expected (node ++ colon :: service) node (some service)
  | plain (host : List UInt8) (absent : colon ∉ host) (bare : Bare host) : Expected host host none
  | literal (host : List UInt8) (noOpen : openBracket ∉ host) (noClose : closeBracket ∉ host)
    (colons : 2 ≤ host.count colon) : Expected host host none

/-- The scanners agree on the host: brackets hold something exactly when nothing or a colon follows
them, and a host without brackets has at most one colon. -/
def Separate (host : List UInt8) : Prop :=
  match brackets host with
  | some (node, rest) => node ≠ [] ↔ rest = [] ∨ rest.head? = some colon
  | none => host.count colon ≤ 1

theorem brackets_append (first : closeBracket ∉ node) :
    brackets (openBracket :: (node ++ closeBracket :: rest)) = some (node, rest) := by
  rw [brackets, if_pos List.head?_cons, List.tail_cons, memchr_append first]
  simp

theorem eq_of_brackets (inBrackets : brackets host = some (node, rest)) :
    host = openBracket :: (node ++ closeBracket :: rest) ∧ closeBracket ∉ node := by
  unfold brackets at inBrackets
  split at inBrackets
  · rename_i opens
    obtain ⟨found, isFound, same⟩ := Option.map_eq_some_iff.mp inBrackets
    obtain ⟨before, after, split, absent, rfl⟩ := eq_append_of_memchr isFound
    rw [split] at same
    simp only [List.length_append, Nat.add_sub_cancel, List.take_left', List.tail_cons,
      Prod.mk.injEq] at same
    obtain ⟨rfl, rfl⟩ := same
    exact ⟨by rw [← split]; exact (List.cons_head?_tail opens).symm, absent⟩
  · cases inBrackets

/-! ### The two scanners -/

/-- A host in brackets that hold something is settled by the first scanner. -/
theorem lookupArgs_brackets (first : closeBracket ∉ node) (nonempty : node ≠ []) :
    lookupArgs (openBracket :: (node ++ closeBracket :: rest)) =
      (cString node, if 2 ≤ (cString rest).length ∧ rest.head? = some colon then
        some (cString rest.tail) else none) := by
  have scanned : bracketNode (openBracket :: (node ++ closeBracket :: rest)) =
      (node, if 2 ≤ (cString rest).length ∧ rest.head? = some colon then
        some rest.tail else none) := by
    rw [bracketNode, if_pos List.head?_cons, List.tail_cons, memchr_append first]
    have bracket : closeBracket ≠ 0 := by decide
    simp only [cString_cons bracket, List.length_cons, List.length_append, List.drop_succ_cons,
      List.drop_zero, List.tail_cons]
    have position : node.length + (rest.length + 1) + 1 - (rest.length + 1) - 1 = node.length := by
      omega
    rw [position, List.take_left, List.drop_one]
    have count : 3 ≤ (cString rest).length + 1 ↔ 2 ≤ (cString rest).length := by omega
    simp only [count]
    split <;> rfl
  have isNode : node.isEmpty = false := List.isEmpty_eq_false_iff.mpr nonempty
  rw [lookupArgs, scanned]
  simp only [isNode, Bool.false_eq_true, if_false]
  split <;> rfl

/-- No brackets hold a node. -/
def Unsettled (host : List UInt8) : Prop :=
  ∀ node rest, brackets host = some (node, rest) → node = []

/-- Elsewhere the second scanner settles the host. -/
theorem lookupArgs_colon (unsettled : Unsettled host) :
    lookupArgs host =
      (cString (if (colonNode host).1.isEmpty then host else (colonNode host).1),
        (colonNode host).2.map cString) := by
  have noNode : (bracketNode host).1 = [] := by
    rw [bracketNode]
    split
    · rename_i opens
      cases isFound : memchr closeBracket host.tail with
      | none => rfl
      | some found =>
          obtain ⟨before, after, split, absent, rfl⟩ := eq_append_of_memchr isFound
          obtain ⟨tail, rfl⟩ : ∃ tail, host = openBracket :: tail :=
            ⟨host.tail, (List.cons_head?_tail opens).symm⟩
          rw [List.tail_cons] at split
          subst split
          cases unsettled before after (brackets_append absent)
          dsimp only
          split <;> simp
    · rfl
  rw [lookupArgs]
  simp [noNode]

theorem lookupArgs_plain (unsettled : Unsettled host) (absent : colon ∉ host) :
    lookupArgs host = (cString host, none) := by
  have scanned : colonNode host = ([], none) := by rw [colonNode, memchr_eq_none absent]
  rw [lookupArgs_colon unsettled, scanned]
  rfl

theorem lookupArgs_service {name : List UInt8} (unsettled : Unsettled (node ++ colon :: name))
    (nonempty : node ≠ []) (inNode : colon ∉ node) (inService : colon ∉ name) :
    lookupArgs (node ++ colon :: name) = (cString node, some (cString name)) := by
  have scanned : colonNode (node ++ colon :: name) = (node, some name) := by
    rw [colonNode, memchr_append inNode]
    dsimp only
    rw [List.tail_cons, memchr_eq_none inService, List.length_append, Nat.add_sub_cancel,
      List.take_left]
  have isNode : node.isEmpty = false := List.isEmpty_eq_false_iff.mpr nonempty
  rw [lookupArgs_colon unsettled, scanned]
  simp [isNode]

/-- **The pointer left behind**: with a second colon the service starts at the first one. -/
theorem lookupArgs_colons (unsettled : Unsettled (before ++ colon :: after))
    (first : colon ∉ before) (second : colon ∈ after) :
    lookupArgs (before ++ colon :: after) =
      (cString (before ++ colon :: after), some (cString (colon :: after))) := by
  obtain ⟨between, rest, rfl, absent⟩ := List.eq_append_cons_of_mem second
  have scanned : colonNode (before ++ colon :: (between ++ colon :: rest)) =
      ([], some (colon :: (between ++ colon :: rest))) := by
    rw [colonNode, memchr_append first]
    dsimp only
    rw [List.tail_cons, memchr_append absent]
  rw [lookupArgs_colon unsettled, scanned]
  rfl

/-- The node of the second scanner is the front of the host. -/
theorem colonNode_front (host : List UInt8) : (colonNode host).1 <+: host := by
  unfold colonNode
  split
  · exact List.nil_prefix
  · split
    · exact List.nil_prefix
    · exact List.take_prefix ..

/-- Empty brackets are part of the node. -/
theorem lookupArgs_empty (rest : List UInt8) :
    (lookupArgs (openBracket :: closeBracket :: rest)).1 ≠ [] := by
  have unsettled : Unsettled (openBracket :: closeBracket :: rest) := by
    intro node rest' inBrackets
    have empty : brackets (openBracket :: ([] ++ closeBracket :: rest)) = some ([], rest) :=
      brackets_append List.not_mem_nil
    rw [List.nil_append, inBrackets] at empty
    cases empty
    rfl
  rw [lookupArgs_colon unsettled]
  have bracket : openBracket ≠ 0 := by decide
  cases isNode : (colonNode (openBracket :: closeBracket :: rest)).1 with
  | nil => rw [List.isEmpty_nil, if_pos rfl, cString_cons bracket]; exact List.cons_ne_nil _ _
  | cons byte bytes =>
      have front := colonNode_front (openBracket :: closeBracket :: rest)
      rw [isNode, List.cons_prefix_cons] at front
      obtain ⟨rfl, _⟩ := front
      rw [List.isEmpty_cons, if_neg Bool.false_ne_true, cString_cons bracket]
      exact List.cons_ne_nil _ _

/-! ### The pairs that are handed over -/

/-- With at most one colon and without one of the forms in brackets, the scanners agree where the first
one finds no node. -/
theorem separate_iff (bare : Bare host) (colons : host.count colon ≤ 1) :
    Separate host ↔ Unsettled host := by
  unfold Separate Unsettled
  cases inBrackets : brackets host with
  | none => exact iff_of_true colons nofun
  | some pair =>
      obtain ⟨node, rest⟩ := pair
      obtain ⟨followed, byOther⟩ := bare node rest inBrackets
      simp only [followed, byOther, or_self, iff_false, not_not, Option.some.injEq, Prod.mk.injEq]
      constructor
      · rintro rfl _ _ ⟨rfl, _⟩
        rfl
      · exact fun all => all node rest ⟨rfl, rfl⟩

/-- A node in brackets, and its service. -/
theorem lookup_brackets_iff (first : closeBracket ∉ node)
    (followed : rest = [] ∨ rest.head? = some colon)
    (hands : node ≠ [] → (lookupArgs (openBracket :: (node ++ closeBracket :: rest)) =
      (node, service) ↔ 0 ∉ node ∧ 0 ∉ rest)) :
    lookupArgs (openBracket :: (node ++ closeBracket :: rest)) = (node, service) ↔
      0 ∉ openBracket :: (node ++ closeBracket :: rest) ∧
        Separate (openBracket :: (node ++ closeBracket :: rest)) := by
  have separate : Separate (openBracket :: (node ++ closeBracket :: rest)) ↔ node ≠ [] := by
    rw [Separate, brackets_append first]
    exact iff_true_right followed
  have zeros : 0 ∉ openBracket :: (node ++ closeBracket :: rest) ↔ 0 ∉ node ∧ 0 ∉ rest := by
    simp [openBracket, closeBracket]
  rw [separate, zeros]
  by_cases nonempty : node = []
  · subst nonempty
    refine iff_of_false (fun same => lookupArgs_empty rest ?_) fun both => both.2 rfl
    rw [List.nil_append] at same
    rw [same]
  · rw [hands nonempty]
    exact (and_iff_left nonempty).symm

/-- The service in brackets is read when it has a byte before the end of the C string. -/
theorem service_eq_iff {name : List UInt8} (nonempty : name ≠ []) :
    (if 2 ≤ (cString (colon :: name)).length ∧ (colon :: name).head? = some colon then
      some (cString (colon :: name).tail) else none) = some name ↔ 0 ∉ name := by
  rw [← cString_eq_iff, cString_cons (by decide), List.tail_cons, List.length_cons]
  constructor
  · intro same
    split at same
    · exact Option.some.inj same
    · cases same
  · intro same
    have positive : 0 < name.length := List.length_pos_iff.mpr nonempty
    rw [same, if_pos ⟨by omega, List.head?_cons⟩]

/-- A node without one of the forms in brackets, as the second scanner finds it. -/
theorem lookup_bare_iff (bare : Bare host) (colons : host.count colon ≤ 1)
    (hands : Unsettled host → (lookupArgs host = (node, service) ↔ 0 ∉ host))
    (other : ∀ inside rest, host = openBracket :: (inside ++ closeBracket :: rest) →
      (cString inside, (none : Option (List UInt8))) ≠ (node, service)) :
    lookupArgs host = (node, service) ↔ 0 ∉ host ∧ Separate host := by
  rw [separate_iff bare colons]
  by_cases unsettled : Unsettled host
  · rw [hands unsettled]
    exact (and_iff_left unsettled).symm
  · refine iff_of_false (fun same => ?_) fun both => unsettled both.2
    simp only [Unsettled, not_forall] at unsettled
    obtain ⟨inside, rest, inBrackets, nonempty⟩ := unsettled
    obtain ⟨isHost, first⟩ := eq_of_brackets inBrackets
    refine other inside rest isHost ?_
    rw [← same, isHost, lookupArgs_brackets first nonempty, if_neg]
    exact fun found => (bare inside rest inBrackets).2 found.2

/-- A bare literal gets a service. -/
theorem lookup_literal (noOpen : openBracket ∉ host) (colons : 2 ≤ host.count colon) :
    (lookupArgs host).2 ≠ none := by
  have member : colon ∈ host := List.count_pos_iff.mp (by omega)
  obtain ⟨before, after, rfl, first⟩ := List.eq_append_cons_of_mem member
  have second : colon ∈ after := by
    rw [List.count_append, List.count_eq_zero_of_not_mem first, List.count_cons_self] at colons
    exact List.count_pos_iff.mp (by omega)
  have unsettled : Unsettled (before ++ colon :: after) := by
    intro node rest inBrackets
    rw [(eq_of_brackets inBrackets).1] at noOpen
    exact absurd List.mem_cons_self noOpen
  rw [lookupArgs_colons unsettled first second]
  exact Option.some_ne_none _

/-- **What `Lookup` hands over.** The node and service that a host stands for are the arguments of
`getaddrinfo` exactly when the host has no byte 0 and the scanners agree on it. -/
theorem lookup_iff (host node : List UInt8) (service : Option (List UInt8))
    (expected : Expected host node service) :
    lookupArgs host = (node, service) ↔ 0 ∉ host ∧ Separate host := by
  have colon_ne_zero : (0 : UInt8) ≠ colon := by decide
  cases expected with
  | bracketsService node service first nonempty =>
      refine lookup_brackets_iff first (Or.inr List.head?_cons) fun someNode => ?_
      rw [lookupArgs_brackets first someNode, Prod.mk.injEq, cString_eq_iff,
        service_eq_iff nonempty, List.mem_cons, not_or]
      exact and_congr_right fun _ => (and_iff_right colon_ne_zero).symm
  | bracketsOnly node first =>
      refine lookup_brackets_iff first (Or.inl rfl) fun someNode => ?_
      rw [lookupArgs_brackets first someNode, Prod.mk.injEq, cString_eq_iff]
      simp
  | bracketsColon node first =>
      refine lookup_brackets_iff first (Or.inr List.head?_cons) fun someNode => ?_
      rw [lookupArgs_brackets first someNode, Prod.mk.injEq, cString_eq_iff]
      have short : ¬ 2 ≤ (cString [colon]).length := by decide
      simp [short, colon_ne_zero]
  | service node service someNode someService inNode inService bare =>
      have colons : (node ++ colon :: service).count colon ≤ 1 := by
        rw [List.count_append, List.count_cons_self, List.count_eq_zero_of_not_mem inNode,
          List.count_eq_zero_of_not_mem inService]
      refine lookup_bare_iff bare colons (fun unsettled => ?_) fun _ _ _ => by simp
      rw [lookupArgs_service unsettled someNode inNode inService, Prod.mk.injEq, Option.some_inj,
        cString_eq_iff, cString_eq_iff]
      simp [colon_ne_zero]
  | plain host absent bare =>
      have colons : host.count colon ≤ 1 := by
        rw [List.count_eq_zero_of_not_mem absent]
        exact Nat.zero_le 1
      refine lookup_bare_iff bare colons (fun unsettled => ?_) fun inside rest isHost same => ?_
      · rw [lookupArgs_plain unsettled absent, Prod.mk.injEq, cString_eq_iff]
        exact and_iff_left rfl
      · have long := cString_length_le inside
        rw [(Prod.mk.inj same).1, isHost] at long
        simp only [List.length_cons, List.length_append] at long
        omega
  | literal host noOpen noClose colons =>
      refine iff_of_false (fun same => ?_) ?_
      · exact lookup_literal noOpen colons (by rw [same])
      · rintro ⟨_, separate⟩
        unfold Separate at separate
        split at separate
        · rename_i inBrackets
          rw [(eq_of_brackets inBrackets).1] at noOpen
          exact noOpen List.mem_cons_self
        · omega

/-- `[::1]:80` is handed over as the node `::1` and the service `80`. -/
theorem lookup_iff_brackets :
    lookupArgs [91, 58, 58, 49, 93, 58, 56, 48] = ([58, 58, 49], some [56, 48]) :=
  (lookup_iff _ _ _ (.bracketsService [58, 58, 49] [56, 48] (by decide) (by decide))).mpr
    ⟨by decide, show [58, 58, 49] ≠ [] ↔ [58, 56, 48] = [] ∨ [58, 56, 48].head? = some colon
      by decide⟩

/-- **The stale pointer.** The literal `::1` is handed over with the service `::1`. -/
theorem lookup_stale : Expected [58, 58, 49] [58, 58, 49] none ∧
    lookupArgs [58, 58, 49] = ([58, 58, 49], some [58, 58, 49]) ∧
    lookupArgs [58, 58, 49] ≠ ([58, 58, 49], none) :=
  ⟨.literal _ (by decide) (by decide) (by decide), by decide, by decide⟩

end Wyze.Address
