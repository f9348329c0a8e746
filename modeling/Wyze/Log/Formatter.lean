/-
**`LogFormatter::init` with its indices.**

The scanner goes through the pattern with an index `i` and, from each `%` on, with an index `n`; a
directive sets `i` behind itself, one that does not end leaves it. A character stands for a byte. Both
loops take `fuel`, and run out of it with `none`.

* `scanDirective_follows`: the inner loop finds what `scanStr` finds.
* `turns_scan`: the outer loop makes what `scan` makes.
* `init_eq_new`: with more fuel than the pattern has characters `init` ends, in `LogFormatter.new`.
* `scan_printed`: the scanner on printed items.
* `init_rebuilds`: `init` ends on every pattern and rebuilds printed items.
-/
import Wyze.Log.Logger

namespace Wyze.Log.LogFormatter

/-- `m_pattern.substr(pos, len)`. -/
def substr (pattern : List Char) (pos len : Nat) : List Char := (pattern.drop pos).take len

/-- The variables of the inner loop; `fmtStatus` is true for 1. -/
structure Cursor where
  n : Nat
  fmtStatus : Bool
  fmtStart : Nat
  str : List Char
  fmt : List Char

/-- The inner loop. -/
def scanDirective (pattern : List Char) (i : Nat) : Nat → Cursor → Option Cursor
  | 0, _ => none
  | fuel + 1, cursor =>
    match pattern[cursor.n]? with
    | none => some cursor
    | some c =>
      if !cursor.fmtStatus && (!isAlpha c && c ≠ '{' && c ≠ '}') then
        some { cursor with str := substr pattern (i + 1) (cursor.n - i - 1) }
      else if !cursor.fmtStatus && c = '{' then
        scanDirective pattern i fuel
          { cursor with
            str := substr pattern (i + 1) (cursor.n - i - 1)
            fmtStatus := true
            fmtStart := cursor.n
            n := cursor.n + 1 }
      else if cursor.fmtStatus && c = '}' then
        some
          { cursor with
            fmt := substr pattern (cursor.fmtStart + 1) (cursor.n - cursor.fmtStart - 1)
            fmtStatus := false
            n := cursor.n + 1 }
      else
        scanDirective pattern i fuel
          { cursor with
            n := cursor.n + 1
            str := if cursor.n + 1 = pattern.length ∧ cursor.str = [] then pattern.drop (i + 1)
              else cursor.str }

/-- The variables of the outer loop. -/
structure Scanner where
  i : Nat
  vec : List Piece
  nstr : List Char
  error : Bool

/-- The body of the outer loop and its `++i`. -/
def turn (pattern : List Char) (fuel : Nat) (scanner : Scanner) (c : Char) : Option Scanner :=
  if c ≠ '%' then some { scanner with nstr := scanner.nstr ++ [c], i := scanner.i + 1 }
  else if pattern[scanner.i + 1]? = some '%' then
    some { scanner with nstr := scanner.nstr ++ [c], i := scanner.i + 1 + 1 }
  else
    (scanDirective pattern scanner.i fuel
        { n := scanner.i + 1, fmtStatus := false, fmtStart := 0, str := [], fmt := [] }).map fun cursor =>
      if !cursor.fmtStatus then
        { scanner with
          vec := scanner.vec ++ flush scanner.nstr ++ [.directive cursor.str cursor.fmt]
          nstr := []
          i := cursor.n - 1 + 1 }
      else
        { scanner with
          error := true
          vec := scanner.vec ++ [.text "<<pattern _error>>".toList]
          i := scanner.i + 1 }

/-- The outer loop. -/
def turns (pattern : List Char) (fuel : Nat) : Nat → Scanner → Option Scanner
  | 0, _ => none
  | left + 1, scanner =>
    match pattern[scanner.i]? with
    | none => some scanner
    | some c => (turn pattern fuel scanner c).bind (turns pattern fuel left)

/-- `init`. -/
def init (fuel : Nat) (pattern : String) : Option LogFormatter :=
  (turns pattern.toList fuel fuel { i := 0, vec := [], nstr := [], error := false }).map fun scanner =>
    let vec := scanner.vec ++ flush scanner.nstr
    { pattern := pattern
      items := vec.map fun piece => (itemOf piece).1
      isError := scanner.error || vec.any fun piece => (itemOf piece).2 }

variable {pattern : List Char}

theorem substr_succ {pos n : Nat} (le : pos ≤ n) {c : Char} (here : pattern[n]? = some c) :
    substr pattern pos (n + 1 - pos) = substr pattern pos (n - pos) ++ [c] := by
  rw [substr, substr, Nat.succ_sub le, List.take_add_one, List.getElem?_drop,
    Nat.add_sub_of_le le, here]
  rfl

theorem drop_eq_cons {n : Nat} {c : Char} (here : pattern[n]? = some c) :
    pattern.drop n = c :: pattern.drop (n + 1) := by
  obtain ⟨less, rfl⟩ := List.getElem?_eq_some_iff.mp here
  exact List.drop_eq_getElem_cons less

/-! ### The inner loop -/

/-- The cursor holds the directive that was found and stands behind it. -/
def Follows (pattern : List Char) (cursor : Cursor) : Option (Piece × List Char) → Prop
  | some (piece, rest) => cursor.fmtStatus = false ∧ piece = .directive cursor.str cursor.fmt ∧
      rest = pattern.drop cursor.n
  | none => cursor.fmtStatus = true

/-- Inside of an argument. -/
theorem scanDirective_fmt (i start : Nat) (fmt : List Char) : ∀ (fuel n : Nat) (str : List Char),
    start + 1 ≤ n → n ≤ pattern.length → pattern.length < n + fuel →
    ∃ cursor, scanDirective pattern i fuel
        { n := n, fmtStatus := true, fmtStart := start, str := str, fmt := fmt } = some cursor ∧
      n ≤ cursor.n ∧ Follows pattern cursor
        ((scanFmt (substr pattern (start + 1) (n - (start + 1))) (pattern.drop n)).map fun found =>
          (.directive str found.1, found.2)) := by
  intro fuel
  induction fuel with
  | zero => exact fun n _ _ inside enough => absurd enough (Nat.not_lt_of_le inside)
  | succ fuel ih =>
      intro n str behind inside enough
      rw [scanDirective]
      dsimp only
      cases here : pattern[n]? with
      | none =>
          rw [List.drop_eq_nil_of_le (List.getElem?_eq_none_iff.mp here)]
          exact ⟨_, rfl, Nat.le_refl _, rfl⟩
      | some c =>
          have less : n < pattern.length := (List.getElem?_eq_some_iff.mp here).1
          rw [drop_eq_cons here, scanFmt]
          simp only [Bool.not_true, Bool.false_and, Bool.false_eq_true, if_false, Bool.true_and,
            decide_eq_true_eq]
          split
          · exact ⟨_, rfl, Nat.le_succ _, rfl, by rw [Nat.sub_sub], rfl⟩
          · obtain ⟨cursor, scanned, later, follows⟩ :=
              ih (n + 1) (if n + 1 = pattern.length ∧ str = [] then pattern.drop (i + 1) else str)
                (Nat.le_succ_of_le behind) less (by omega)
            refine ⟨cursor, scanned, Nat.le_of_succ_le later, ?_⟩
            rw [substr_succ behind here] at follows
            -- at the end of the pattern the argument does not end, and the directive is not used
            by_cases last : n + 1 = pattern.length
            · rw [List.drop_eq_nil_of_le (Nat.le_of_eq last.symm)] at follows ⊢
              exact follows
            · simpa only [last, false_and, if_false] using follows

/-- **The inner loop** finds what `scanStr` finds. -/
theorem scanDirective_follows (i : Nat) : ∀ (fuel n : Nat), i + 1 ≤ n → n ≤ pattern.length →
    pattern.length < n + fuel →
    ∃ cursor, scanDirective pattern i fuel
        { n := n
          fmtStatus := false
          fmtStart := 0
          str := if n = pattern.length then pattern.drop (i + 1) else []
          fmt := [] } = some cursor ∧
      n ≤ cursor.n ∧ Follows pattern cursor
        (scanStr (substr pattern (i + 1) (n - (i + 1))) (pattern.drop n)) := by
  intro fuel
  induction fuel with
  | zero => exact fun n _ inside enough => absurd enough (Nat.not_lt_of_le inside)
  | succ fuel ih =>
      intro n behind inside enough
      rw [scanDirective]
      dsimp only
      cases here : pattern[n]? with
      | none =>
          have last : n = pattern.length :=
            Nat.le_antisymm inside (List.getElem?_eq_none_iff.mp here)
          have whole : substr pattern (i + 1) (n - (i + 1)) = pattern.drop (i + 1) := by
            rw [substr, last, ← List.length_drop, List.take_length]
          rw [whole, List.drop_eq_nil_of_le (Nat.le_of_eq last.symm), scanStr, if_pos last]
          exact ⟨_, rfl, Nat.le_refl _, rfl, rfl,
            (List.drop_eq_nil_of_le (Nat.le_of_eq last.symm)).symm⟩
      | some c =>
          have less : n < pattern.length := (List.getElem?_eq_some_iff.mp here).1
          rw [drop_eq_cons here, scanStr, if_neg (Nat.ne_of_lt less)]
          simp only [Bool.not_false, Bool.true_and, Bool.false_and, Bool.false_eq_true, if_false,
            decide_eq_true_eq, and_true]
          split
          · refine ⟨_, rfl, Nat.le_refl _, rfl, by rw [Nat.sub_sub], ?_⟩
            exact (drop_eq_cons here).symm
          · split
            · obtain ⟨cursor, scanned, later, follows⟩ :=
                scanDirective_fmt i n [] fuel (n + 1) (substr pattern (i + 1) (n - i - 1))
                  (Nat.le_refl _) less (by omega)
              refine ⟨cursor, scanned, Nat.le_of_succ_le later, ?_⟩
              rwa [Nat.sub_self, Nat.sub_sub] at follows
            · obtain ⟨cursor, scanned, later, follows⟩ := ih (n + 1) (Nat.le_succ_of_le behind) less
                (by omega)
              refine ⟨cursor, scanned, Nat.le_of_succ_le later, ?_⟩
              rwa [substr_succ behind here] at follows

/-! ### The outer loop -/

/-- From a directive the inner loop finds what `scanStr` finds behind its `%`. -/
theorem scanDirective_start {i fuel : Nat} (here : pattern[i]? = some '%')
    (enough : pattern.length < fuel) :
    ∃ cursor, scanDirective pattern i fuel
        { n := i + 1, fmtStatus := false, fmtStart := 0, str := [], fmt := [] } = some cursor ∧
      i + 1 ≤ cursor.n ∧ Follows pattern cursor (scanStr [] (pattern.drop (i + 1))) := by
  have less : i < pattern.length := (List.getElem?_eq_some_iff.mp here).1
  have nothing : (if i + 1 = pattern.length then pattern.drop (i + 1) else []) = [] := by
    split
    · exact List.drop_eq_nil_of_le (Nat.le_of_eq ‹i + 1 = pattern.length›.symm)
    · rfl
  have found := scanDirective_follows i fuel (i + 1) (Nat.le_refl _) less (by omega)
  rwa [nothing, Nat.sub_self] at found

theorem scan_other {c : Char} (plain : c ≠ '%') (most : Nat) (nstr rest : List Char) :
    scan (most + 1) nstr (c :: rest) = scan most (nstr ++ [c]) rest := by
  rw [scan.eq_def]
  exact if_pos plain

theorem scan_percent (most : Nat) (nstr rest : List Char) :
    scan (most + 1) nstr ('%' :: '%' :: rest) = scan most (nstr ++ ['%']) rest := by
  rw [scan.eq_def]
  exact if_neg (not_not_intro rfl)

theorem scan_directive {rest rest' : List Char} {piece : Piece} (single : rest.head? ≠ some '%')
    (found : scanStr [] rest = some (piece, rest')) (most : Nat) (nstr : List Char) :
    scan (most + 1) nstr ('%' :: rest) =
      (flush nstr ++ piece :: (scan most [] rest').1, (scan most [] rest').2) := by
  rw [scan.eq_def]
  dsimp only
  rw [if_neg (not_not_intro rfl)]
  split
  · exact absurd rfl single
  · rw [found]

theorem scan_open {rest : List Char} (single : rest.head? ≠ some '%') (found : scanStr [] rest = none)
    (most : Nat) (nstr : List Char) :
    scan (most + 1) nstr ('%' :: rest) =
      (.text "<<pattern _error>>".toList :: (scan most nstr rest).1, true) := by
  rw [scan.eq_def]
  dsimp only
  rw [if_neg (not_not_intro rfl)]
  split
  · exact absurd rfl single
  · rw [found]

/-- What is there with what `scan` makes of the rest of the pattern. -/
def Scanner.outcome (pattern : List Char) (most : Nat) (scanner : Scanner) : List Piece × Bool :=
  let rest := scan most scanner.nstr (pattern.drop scanner.i)
  (scanner.vec ++ rest.1, scanner.error || rest.2)

/-- **A turn of the outer loop** goes on in the pattern and leaves the outcome. -/
theorem turn_scan {fuel : Nat} (enough : pattern.length < fuel) {scanner : Scanner} {c : Char}
    (here : pattern[scanner.i]? = some c) (most : Nat) :
    ∃ next, turn pattern fuel scanner c = some next ∧ scanner.i < next.i ∧
      next.outcome pattern most = scanner.outcome pattern (most + 1) := by
  obtain ⟨i, vec, nstr, error⟩ := scanner
  dsimp only at here
  rw [turn, Scanner.outcome, drop_eq_cons here]
  dsimp only
  by_cases plain : c = '%'
  · subst plain
    rw [if_neg (not_not_intro rfl)]
    by_cases double : pattern[i + 1]? = some '%'
    · rw [if_pos double, drop_eq_cons double, scan_percent]
      exact ⟨_, rfl, Nat.lt_add_of_pos_right Nat.two_pos, rfl⟩
    · rw [if_neg double]
      rw [← List.head?_drop] at double
      obtain ⟨cursor, scanned, later, follows⟩ := scanDirective_start here enough
      rw [scanned, Option.map_some]
      refine ⟨_, rfl, ?_⟩
      cases found : scanStr [] (pattern.drop (i + 1)) with
      | none =>
          rw [found] at follows
          rw [scan_open double found, show cursor.fmtStatus = true from follows]
          refine ⟨Nat.lt_succ_self i, Prod.ext ?_ ?_⟩
          · exact List.append_assoc _ _ _
          · exact (Bool.or_true error).symm
      | some result =>
          obtain ⟨piece, rest⟩ := result
          rw [found] at follows
          obtain ⟨closed, rfl, rfl⟩ := follows
          have back : cursor.n - 1 + 1 = cursor.n := Nat.sub_add_cancel (Nat.le_of_add_left_le later)
          rw [scan_directive double found, closed, Bool.not_false, if_pos rfl, Scanner.outcome]
          dsimp only
          rw [back, List.append_assoc, List.append_assoc]
          exact ⟨later, rfl⟩
  · rw [if_pos plain, scan_other plain]
    exact ⟨_, rfl, Nat.lt_succ_self i, rfl⟩

/-- **The outer loop** makes what `scan` makes. -/
theorem turns_scan {fuel : Nat} (enough : pattern.length < fuel) :
    ∀ (left : Nat) (scanner : Scanner) (most : Nat), pattern.length - scanner.i < left →
      pattern.length - scanner.i ≤ most →
      ∃ final, turns pattern fuel left scanner = some final ∧
        (final.vec ++ flush final.nstr, final.error) = scanner.outcome pattern most := by
  intro left
  induction left with
  | zero => exact fun _ _ none => absurd none (Nat.not_lt_zero _)
  | succ left ih =>
      intro scanner most ends short
      rw [turns]
      cases here : pattern[scanner.i]? with
      | none =>
          rw [Scanner.outcome, List.drop_eq_nil_of_le (List.getElem?_eq_none_iff.mp here), scan]
          exact ⟨scanner, rfl, Prod.ext rfl (Bool.or_false _).symm⟩
      | some c =>
          have less : scanner.i < pattern.length := (List.getElem?_eq_some_iff.mp here).1
          obtain ⟨most, rfl⟩ : ∃ more, most = more + 1 := ⟨most - 1, by omega⟩
          obtain ⟨next, turned, later, same⟩ := turn_scan enough here most
          obtain ⟨final, rest, made⟩ := ih next most (by omega) (by omega)
          dsimp only
          rw [turned, ← same]
          exact ⟨final, rest, made⟩

/-- **`init` ends** and makes what `LogFormatter.new` says. -/
theorem init_eq_new {fuel : Nat} {pattern : String} (enough : pattern.toList.length < fuel) :
    init fuel pattern = some (LogFormatter.new pattern) := by
  obtain ⟨scanner, turned, made⟩ := turns_scan enough fuel
    { i := 0, vec := [], nstr := [], error := false } pattern.toList.length (by dsimp only; omega)
    (Nat.sub_le _ _)
  obtain ⟨vec, error⟩ := Prod.ext_iff.mp made
  rw [init, turned, Option.map_some]
  dsimp only [Scanner.outcome] at vec error ⊢
  rw [vec, error, List.nil_append, Bool.false_or, List.drop_zero]
  rfl

/-! ### Printed items -/

/-- Literals with `%` doubled, directives as `%name` or `%name{arg}`. -/
def printPiece : Piece → List Char
  | .text str => str.flatMap fun c => if c = '%' then ['%', '%'] else [c]
  | .directive str fmt => '%' :: (str ++ if fmt = [] then [] else '{' :: (fmt ++ ['}']))

def print (items : List Piece) : String := String.ofList (items.flatMap printPiece)

/-- The inner loop stops at the character. -/
def Stops (c : Char) : Prop := isAlpha c = false ∧ c ≠ '{' ∧ c ≠ '}'

/-- What may stand behind an item. -/
def Fits : Piece → Piece → Prop
  | .text _, .text _ => False
  | .directive _ [], .text (c :: _) => Stops c
  | _, _ => True

/-- Literals that are not empty and not adjacent, directives with known names whose argument, if they
have one, has no `}`; what follows a directive without argument cannot be taken for a part of it. -/
structure Printable (items : List Piece) : Prop where
  text : ∀ str, .text str ∈ items → str ≠ []
  directive : ∀ str fmt, .directive str fmt ∈ items → str ∈ formatItems ∧ '}' ∉ fmt
  fits : items.IsChain Fits

theorem Printable.tail {item : Piece} {items : List Piece} (printable : Printable (item :: items)) :
    Printable items where
  text str member := printable.text str (List.mem_cons_of_mem _ member)
  directive str fmt member := printable.directive str fmt (List.mem_cons_of_mem _ member)
  fits := printable.fits.of_cons

theorem formatItems_letters : ∀ str ∈ formatItems, str ≠ [] ∧ ∀ c ∈ str, isAlpha c = true := by
  simp [formatItems, isAlpha]

theorem isAlpha_ne {c : Char} (letter : isAlpha c = true) : c ≠ '%' ∧ c ≠ '{' ∧ c ≠ '}' := by
  refine ⟨?_, ?_, ?_⟩
  all_goals
    rintro rfl
    exact absurd letter (by decide)

theorem scanStr_letters {letters : List Char} (all : ∀ c ∈ letters, isAlpha c = true)
    (str rest : List Char) : scanStr str (letters ++ rest) = scanStr (str ++ letters) rest := by
  induction letters generalizing str with
  | nil => rw [List.nil_append, List.append_nil]
  | cons c letters ih =>
      obtain ⟨letter, others⟩ := List.forall_mem_cons.mp all
      obtain ⟨_, opens, closes⟩ := isAlpha_ne letter
      rw [List.cons_append, scanStr, if_neg (by simp [letter]), if_neg opens, ih others,
        List.append_assoc]
      rfl

theorem scanFmt_closed {arg : List Char} (open_ : '}' ∉ arg) (fmt rest : List Char) :
    scanFmt fmt (arg ++ '}' :: rest) = some (fmt ++ arg, rest) := by
  induction arg generalizing fmt with
  | nil => rw [List.nil_append, scanFmt, if_pos rfl, List.append_nil]
  | cons c arg ih =>
      rw [List.mem_cons, not_or] at open_
      rw [List.cons_append, scanFmt, if_neg (Ne.symm open_.1), ih open_.2, List.append_assoc]
      rfl

theorem scanStr_stops {str rest : List Char} (stops : ∀ c ∈ rest.head?, Stops c) :
    scanStr str rest = some (.directive str [], rest) := by
  cases rest with
  | nil => rfl
  | cons c rest =>
      obtain ⟨noLetter, opens, closes⟩ := stops c rfl
      rw [scanStr, if_pos (by simp [noLetter, opens, closes])]

/-- The directive is found behind its `%`. -/
theorem scanStr_printed {str fmt rest : List Char} (letters : ∀ c ∈ str, isAlpha c = true)
    (noClose : '}' ∉ fmt) (stops : fmt = [] → ∀ c ∈ rest.head?, Stops c) :
    scanStr [] (str ++ (if fmt = [] then [] else '{' :: (fmt ++ ['}'])) ++ rest) =
      some (.directive str fmt, rest) := by
  rw [List.append_assoc, scanStr_letters letters, List.nil_append]
  split
  · rename_i empty
    rw [empty, List.nil_append, scanStr_stops (stops empty)]
  · rw [List.cons_append, scanStr, if_neg (by decide), if_pos rfl, List.append_assoc,
      List.singleton_append, scanFmt_closed noClose]
    rfl

/-- A printed literal goes into `nstr`. -/
theorem scan_text (str rest : List Char) : ∀ (nstr : List Char) (most : Nat),
    (printPiece (.text str) ++ rest).length ≤ most →
    ∃ more, rest.length ≤ more ∧
      scan most nstr (printPiece (.text str) ++ rest) = scan more (nstr ++ str) rest := by
  induction str with
  | nil =>
      intro nstr most enough
      exact ⟨most, enough, by rw [List.append_nil]; rfl⟩
  | cons c str ih =>
      intro nstr most enough
      have cons : printPiece (.text (c :: str)) ++ rest =
          (if c = '%' then ['%', '%'] else [c]) ++ (printPiece (.text str) ++ rest) :=
        List.append_assoc _ _ _
      rw [cons] at enough ⊢
      obtain ⟨most, rfl⟩ : ∃ more, most = more + 1 := by
        refine ⟨most - 1, ?_⟩
        split at enough <;> simp only [List.length_append, List.length_cons] at enough <;> omega
      have step : scan (most + 1) nstr
          ((if c = '%' then ['%', '%'] else [c]) ++ (printPiece (.text str) ++ rest)) =
            scan most (nstr ++ [c]) (printPiece (.text str) ++ rest) := by
        split
        · rename_i percent
          rw [percent]
          exact scan_percent most nstr _
        · exact scan_other ‹_› most nstr _
      obtain ⟨more, left, scanned⟩ := ih (nstr ++ [c]) most (by
        split at enough <;> simp only [List.length_append, List.length_cons] at enough ⊢ <;> omega)
      exact ⟨more, left, by rw [step, scanned, List.append_assoc]; rfl⟩

/-- What is printed begins with a `%`, or with a literal that does not. -/
theorem stops_printed {str : List Char} {items : List Piece}
    (printable : Printable (.directive str [] :: items)) :
    ∀ c ∈ (items.flatMap printPiece).head?, Stops c := by
  have percent : Stops '%' := ⟨by decide, by decide, by decide⟩
  rcases items with _ | ⟨_ | _, items⟩
  · rintro c ⟨⟩
  · rename_i text
    have filled := printable.text text (List.mem_cons_of_mem _ List.mem_cons_self)
    cases text with
    | nil => exact absurd rfl filled
    | cons first text =>
        have fits : Stops first := printable.fits.rel
        intro c head
        rw [List.flatMap_cons, printPiece, List.flatMap_cons] at head
        split at head
        · cases head
          exact percent
        · cases head
          exact fits
  · rintro c ⟨⟩
    exact percent

/-- **The scanner finds printed items.** -/
theorem scan_printed : ∀ (items : List Piece) (nstr : List Char) (most : Nat), Printable items →
    (nstr ≠ [] → ∀ str, items.head? ≠ some (.text str)) →
    (items.flatMap printPiece).length ≤ most →
    scan most nstr (items.flatMap printPiece) = (flush nstr ++ items, false) := by
  intro items
  induction items with
  | nil =>
      intro nstr most _ _ _
      rw [List.flatMap_nil, List.append_nil]
      cases most <;> rfl
  | cons item items ih =>
      intro nstr most printable pending enough
      rw [List.flatMap_cons] at enough ⊢
      cases item with
      | text str =>
          have none : nstr = [] := by
            by_contra filled
            exact pending filled str rfl
          have filled : str ≠ [] := printable.text str List.mem_cons_self
          obtain ⟨more, left, scanned⟩ := scan_text str (items.flatMap printPiece) nstr most enough
          rw [scanned, none, List.nil_append, ih str more printable.tail ?_ left]
          · rw [flush, if_neg filled]
            rfl
          · rintro _ other same
            cases items with
            | nil => cases same
            | cons next items =>
                cases same
                exact printable.fits.rel
      | directive str fmt =>
          obtain ⟨known, noClose⟩ := printable.directive str fmt List.mem_cons_self
          obtain ⟨named, letters⟩ := formatItems_letters str known
          have found := @scanStr_printed _ _ (items.flatMap printPiece) letters noClose
            (by rintro rfl; exact stops_printed printable)
          rw [printPiece, List.cons_append] at enough ⊢
          rw [List.length_cons] at enough
          obtain ⟨most, rfl⟩ : ∃ more, most = more + 1 := ⟨most - 1, by omega⟩
          have single : (str ++ (if fmt = [] then [] else '{' :: (fmt ++ ['}'])) ++
              items.flatMap printPiece).head? ≠ some '%' := by
            obtain ⟨c, str, rfl⟩ := List.exists_cons_of_ne_nil named
            rintro ⟨⟩
            exact (isAlpha_ne (letters '%' List.mem_cons_self)).1 rfl
          rw [scan_directive single found, ih [] most printable.tail (fun filled => absurd rfl filled)]
          · rfl
          · simp only [List.length_append] at enough
            omega

theorem itemOf_printable {items : List Piece} (printable : Printable items) :
    ∀ piece ∈ items, itemOf piece = (piece, false) := by
  intro piece member
  cases piece with
  | text str => rfl
  | directive str fmt => exact if_pos (printable.directive str fmt member).1

/-- Printed items are rebuilt. -/
theorem new_print {items : List Piece} (printable : Printable items) :
    LogFormatter.new (print items) = { pattern := print items, items := items, isError := false } := by
  have made := itemOf_printable printable
  rw [LogFormatter.new, print, String.toList_ofList,
    scan_printed items [] _ printable (fun filled => absurd rfl filled) (Nat.le_refl _)]
  have same : items.map (fun piece => (itemOf piece).1) = items :=
    (List.map_congr_left fun piece member => congrArg Prod.fst (made piece member)).trans
      (List.map_id items)
  have fine : items.any (fun piece => (itemOf piece).2) = false := by
    rw [List.any_eq_false]
    intro piece member
    rw [made piece member]
    exact Bool.false_ne_true
  simp only [flush, if_true, List.nil_append, same, fine, Bool.or_self]

/-- **Patterns.** `init` ends on every pattern, and on the printed form of a list of items it makes
these items and no error. -/
theorem init_rebuilds :
    (∀ (pattern : String) (fuel : Nat), pattern.toList.length < fuel →
      ∃ formatter, init fuel pattern = some formatter) ∧
    ∀ items : List Piece, Printable items → ∀ fuel, (print items).toList.length < fuel →
      init fuel (print items) = some { pattern := print items, items := items, isError := false } :=
  ⟨fun _ _ enough => ⟨_, init_eq_new enough⟩, fun items printable fuel enough => by
    rw [init_eq_new enough, new_print printable]⟩

/-- `%d{%H:%M}%T%%: %m%n`. -/
def sampleItems : List Piece :=
  [.directive ['d'] "%H:%M".toList, .directive ['T'] [], .text "%: ".toList, .directive ['m'] [],
    .directive ['n'] []]

theorem sampleItems_printable : Printable sampleItems where
  text := by
    intro str member
    simp [sampleItems] at member
    rw [member]
    decide
  directive := by
    intro str fmt member
    simp [sampleItems] at member
    rcases member with ⟨rfl, rfl⟩ | ⟨rfl, rfl⟩ | ⟨rfl, rfl⟩ | ⟨rfl, rfl⟩ <;> decide
  fits := by
    refine .cons_cons trivial (.cons_cons ?_ (.cons_cons trivial (.cons_cons trivial (.singleton _))))
    exact ⟨by decide, by decide, by decide⟩

theorem init_sample : init 20 "%d{%H:%M}%T%%: %m%n" =
    some { pattern := "%d{%H:%M}%T%%: %m%n", items := sampleItems, isError := false } :=
  init_rebuilds.2 sampleItems sampleItems_printable 20 (by decide)

end Wyze.Log.LogFormatter
