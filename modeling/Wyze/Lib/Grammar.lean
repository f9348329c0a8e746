/-
**Grammars without recursion.**

The notations of a scanner generator over `RegularExpression`: a class of symbols (`oneOf`), a fixed
text (`word`), an optional part (`opt`), a bounded repetition (`upTo`, `between`). Each has its
membership lemma, `mem_oneOf` to `mem_between`.

* `follow`: what is left of an expression behind a text; `matchEpsilon_follow` says that it may end
  there exactly when the text matches.
* `terminated`: pieces that are each followed by a separator; `mem_pow_terminated` finds them in a
  repetition, `splitOn_terminated` cuts a text at them.
-/
import Mathlib.Computability.RegularExpressions

namespace Grammar

open RegularExpression

variable {α : Type*} {text : List α}

/-! ### Notations -/

/-- One of these symbols. -/
def oneOf (symbols : List α) : RegularExpression α :=
  symbols.foldr (fun symbol others => char symbol + others) 0

/-- A fixed text. -/
def word (text : List α) : RegularExpression α :=
  text.foldr (fun symbol others => char symbol * others) 1

/-- `P?`. -/
def opt (P : RegularExpression α) : RegularExpression α := P + 1

/-- At most `most` times. -/
def upTo (P : RegularExpression α) (most : Nat) : RegularExpression α := opt P ^ most

/-- `P{least,least + more}`. -/
def between (P : RegularExpression α) (least more : Nat) : RegularExpression α :=
  P ^ least * upTo P more

theorem mem_oneOf {symbols : List α} :
    text ∈ (oneOf symbols).matches' ↔ ∃ symbol ∈ symbols, text = [symbol] := by
  induction symbols with
  | nil => simp [oneOf]
  | cons symbol symbols ih =>
    show text ∈ (char symbol + oneOf symbols).matches' ↔ _
    rw [matches'_add, Language.mem_add, ih, List.exists_mem_cons_iff]
    rfl

theorem mem_word {spelled : List α} : text ∈ (word spelled).matches' ↔ text = spelled := by
  induction spelled generalizing text with
  | nil => exact Language.mem_one text
  | cons symbol spelled ih =>
    show text ∈ (char symbol * word spelled).matches' ↔ _
    rw [matches'_mul, Language.mem_mul]
    constructor
    · rintro ⟨first, rfl, rest, spells, rfl⟩
      rw [ih.mp spells]
      rfl
    · rintro rfl
      exact ⟨[symbol], rfl, spelled, ih.mpr rfl, rfl⟩

theorem mem_opt {P : RegularExpression α} :
    text ∈ (opt P).matches' ↔ text ∈ P.matches' ∨ text = [] := by
  rw [opt, matches'_add, Language.mem_add]
  rfl

theorem mem_upTo {P : RegularExpression α} {most : Nat} :
    text ∈ (upTo P most).matches' ↔ ∃ count ≤ most, text ∈ P.matches' ^ count := by
  rw [upTo, matches'_pow]
  induction most generalizing text with
  | zero =>
    refine ⟨fun empty => ⟨0, le_rfl, empty⟩, ?_⟩
    rintro ⟨count, few, mem⟩
    rwa [Nat.le_zero.mp few] at mem
  | succ most ih =>
    rw [pow_succ', Language.mem_mul]
    constructor
    · rintro ⟨first, may, rest, more, rfl⟩
      obtain ⟨count, few, mem⟩ := ih.mp more
      rcases mem_opt.mp may with once | rfl
      · refine ⟨count + 1, Nat.succ_le_succ few, ?_⟩
        rw [pow_succ']
        exact Language.append_mem_mul once mem
      · exact ⟨count, Nat.le_succ_of_le few, mem⟩
    · rintro ⟨count, few, mem⟩
      rcases count with _ | count
      · exact ⟨[], mem_opt.mpr (Or.inr rfl), text, ih.mpr ⟨0, Nat.zero_le most, mem⟩, rfl⟩
      · rw [pow_succ', Language.mem_mul] at mem
        obtain ⟨first, once, rest, more, rfl⟩ := mem
        exact ⟨first, mem_opt.mpr (Or.inl once), rest,
          ih.mpr ⟨count, Nat.le_of_succ_le_succ few, more⟩, rfl⟩

theorem mem_between {P : RegularExpression α} {least more : Nat} :
    text ∈ (between P least more).matches' ↔
      ∃ count, least ≤ count ∧ count ≤ least + more ∧ text ∈ P.matches' ^ count := by
  rw [between, matches'_mul, matches'_pow, Language.mem_mul]
  constructor
  · rintro ⟨front, first, back, later, rfl⟩
    obtain ⟨count, few, mem⟩ := mem_upTo.mp later
    refine ⟨least + count, Nat.le_add_right _ _, Nat.add_le_add_left few _, ?_⟩
    rw [pow_add]
    exact Language.append_mem_mul first mem
  · rintro ⟨count, enough, few, mem⟩
    rw [← Nat.add_sub_of_le enough, pow_add, Language.mem_mul] at mem
    obtain ⟨front, first, back, later, rfl⟩ := mem
    exact ⟨front, first, back, mem_upTo.mpr ⟨_, by omega, later⟩, rfl⟩

/-- A repeated class of symbols. -/
theorem mem_pow_oneOf {symbols : List α} {count : Nat} :
    text ∈ (oneOf symbols).matches' ^ count ↔
      text.length = count ∧ ∀ symbol ∈ text, symbol ∈ symbols := by
  induction count generalizing text with
  | zero =>
    rw [pow_zero, Language.mem_one, List.length_eq_zero_iff]
    exact (and_iff_left_of_imp (by rintro rfl; simp)).symm
  | succ count ih =>
    rw [pow_succ', Language.mem_mul]
    constructor
    · rintro ⟨first, one, rest, more, rfl⟩
      obtain ⟨symbol, mem, rfl⟩ := mem_oneOf.mp one
      obtain ⟨length, all⟩ := ih.mp more
      exact ⟨congrArg Nat.succ length, List.forall_mem_cons.mpr ⟨mem, all⟩⟩
    · rintro ⟨length, all⟩
      rcases text with _ | ⟨symbol, rest⟩
      · cases length
      · obtain ⟨mem, others⟩ := List.forall_mem_cons.mp all
        exact ⟨[symbol], mem_oneOf.mpr ⟨symbol, mem, rfl⟩, rest,
          ih.mpr ⟨Nat.succ.inj length, others⟩, rfl⟩

/-! ### Following a text -/

/-- What is left of an expression behind a text. -/
def follow [DecidableEq α] (P : RegularExpression α) (text : List α) : RegularExpression α :=
  text.foldl deriv P

/-- **The expression may end behind a text** exactly when the text matches. -/
theorem matchEpsilon_follow [DecidableEq α] (P : RegularExpression α) (text : List α) :
    (follow P text).matchEpsilon = true ↔ text ∈ P.matches' := by
  have same : ∀ (text : List α) (P : RegularExpression α),
      (follow P text).matchEpsilon = P.rmatch text := by
    intro text
    induction text with
    | nil => exact fun P => rfl
    | cons symbol text ih => exact fun P => ih (P.deriv symbol)
  rw [same]
  exact rmatch_iff_matches' P text

/-! ### Separated pieces -/

/-- Pieces, each of them followed by the separator. -/
def terminated (separator : α) (pieces : List (List α)) : List α :=
  pieces.flatMap (· ++ [separator])

theorem terminated_cons (separator : α) (piece : List α) (pieces : List (List α)) :
    terminated separator (piece :: pieces) = piece ++ separator :: terminated separator pieces := by
  rw [terminated, List.flatMap_cons, List.append_assoc]
  rfl

theorem terminated_append (separator : α) (front back : List (List α)) :
    terminated separator (front ++ back) = terminated separator front ++ terminated separator back :=
  List.flatMap_append

theorem terminated_concat (separator : α) (pieces : List (List α)) (piece : List α) :
    terminated separator (pieces ++ [piece]) = terminated separator pieces ++ piece ++ [separator] := by
  rw [terminated_append, List.append_assoc, terminated_cons]
  rfl

theorem of_mem_terminated {separator symbol : α} {pieces : List (List α)}
    (mem : symbol ∈ terminated separator pieces) :
    symbol = separator ∨ ∃ piece ∈ pieces, symbol ∈ piece := by
  obtain ⟨piece, inside, here⟩ := List.mem_flatMap.mp mem
  rcases List.mem_append.mp here with before | last
  · exact Or.inr ⟨piece, inside, before⟩
  · exact Or.inl (List.mem_singleton.mp last)

/-- **The pieces of a repetition.** -/
theorem mem_pow_terminated {P : RegularExpression α} {separator : α} {count : Nat} :
    text ∈ (P * char separator).matches' ^ count ↔
      ∃ pieces : List (List α), pieces.length = count ∧ (∀ piece ∈ pieces, piece ∈ P.matches') ∧
        text = terminated separator pieces := by
  induction count generalizing text with
  | zero =>
    rw [pow_zero, Language.mem_one]
    constructor
    · rintro rfl
      exact ⟨[], rfl, by simp, rfl⟩
    · rintro ⟨pieces, none_left, _, rfl⟩
      rw [List.length_eq_zero_iff.mp none_left]
      rfl
  | succ count ih =>
    rw [pow_succ', Language.mem_mul]
    constructor
    · rintro ⟨first, one, rest, more, rfl⟩
      rw [matches'_mul, Language.mem_mul] at one
      obtain ⟨piece, mem, _, rfl, rfl⟩ := one
      obtain ⟨pieces, length, all, rfl⟩ := ih.mp more
      refine ⟨piece :: pieces, congrArg Nat.succ length, List.forall_mem_cons.mpr ⟨mem, all⟩, ?_⟩
      rw [terminated_cons, List.append_assoc]
      rfl
    · rintro ⟨pieces, length, all, rfl⟩
      rcases pieces with _ | ⟨piece, pieces⟩
      · cases length
      · obtain ⟨mem, others⟩ := List.forall_mem_cons.mp all
        refine ⟨piece ++ [separator], ?_, terminated separator pieces,
          ih.mpr ⟨pieces, Nat.succ.inj length, others, rfl⟩, rfl⟩
        rw [matches'_mul]
        exact Language.append_mem_mul mem rfl

/-- **A text is cut at the separators.** -/
theorem splitOn_terminated [DecidableEq α] {separator : α} {pieces : List (List α)} {last : List α}
    (apart : ∀ piece ∈ pieces, separator ∉ piece) (apart' : separator ∉ last) :
    (terminated separator pieces ++ last).splitOn separator = pieces ++ [last] := by
  induction pieces with
  | nil => exact List.splitOn_eq_singleton apart'
  | cons piece pieces ih =>
    obtain ⟨here, later⟩ := List.forall_mem_cons.mp apart
    rw [terminated_cons, List.append_assoc, List.cons_append,
      List.splitOn_append_cons_self_of_not_mem here, ih later]
    rfl

end Grammar
