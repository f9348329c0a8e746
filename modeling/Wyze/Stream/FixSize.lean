/-
**`Stream::readFixSize` and `Stream::writeFixSize`.**

The four functions are one loop: ask the underlying call for the bytes still missing and move on by
what it returns. The result, an `int`, is stored in a `size_t`, so that a negative one passes the
test `len <= 0` as a huge length; the loop then asks for more than is missing, one place too early.

The results of the underlying call are an argument. `Ask` is one call: where its bytes go to or come
from, and how many are asked for.

* `fixSize_inOrder_iff` — a run is in order exactly when no error comes before its last byte.
* `fixSize_exact_iff` — the four functions.
-/
import Mathlib.Algebra.BigOperators.Group.List.Basic
import Mathlib.Algebra.Ring.Int.Defs
import Wyze.Lib.Words

namespace Wyze.Stream

/-- The conversion of an `int` to `size_t`. -/
def toSize (value : Int) : Nat := (value % 2 ^ 64).toNat

/-- A call of `read` or `write`. -/
structure Ask where
  place : Nat
  amount : Nat
deriving DecidableEq

/-- The loop of all four functions, with `left` bytes still to come. It makes a call for each result,
and waits in one when there is none left; the second component is what it returns. The place moves
by `advance`. -/
def fixSize (advance : Nat → Int → Nat) (length : Nat) :
    Nat → Nat → List Int → List Ask × Option Int
  | place, left, results =>
    if left > 0 then
      match results with
      | [] => ([⟨place, left⟩], none)
      | result :: results =>
        let len := toSize result
        if len ≤ 0 then ([⟨place, left⟩], some (toInt32 len))
        else
          let (asks, returned) := fixSize advance length (advance place result) (sub64 left len) results
          (⟨place, left⟩ :: asks, returned)
    else ([], some (toInt32 length))

/-- `offset += len`. -/
def offsetAdvance (offset : Nat) (result : Int) : Nat := add64 offset (toSize result)

/-- A `ByteArray` is moved by the underlying call, and only by a positive result. -/
def positionAdvance (position : Nat) (result : Int) : Nat :=
  if result > 0 then position + result.toNat else position

def readFixSize (length : Nat) (results : List Int) : List Ask × Option Int :=
  fixSize offsetAdvance length 0 length results

/-- The overload for a `ByteArray`; places are relative to its position at the call. -/
def readFixSizeByteArray (length : Nat) (results : List Int) : List Ask × Option Int :=
  fixSize positionAdvance length 0 length results

def writeFixSize (length : Nat) (results : List Int) : List Ask × Option Int :=
  fixSize offsetAdvance length 0 length results

/-- The overload for a `ByteArray`; places are relative to its position at the call. -/
def writeFixSizeByteArray (length : Nat) (results : List Int) : List Ask × Option Int :=
  fixSize positionAdvance length 0 length results

/-! ### What a run should be -/

/-- **A run in order** after `done` bytes: every call goes on where the last one ended and asks for no
more than is missing, `length` is returned exactly when all bytes were transferred, a result that is
not positive is returned at once, and nothing else is. -/
structure InOrder (length done : Nat) (results : List Int) (run : List Ask × Option Int) : Prop where
  place : ∀ i ask, run.1[i]? = some ask → (ask.place : Int) = done + (results.take i).sum
  amount : ∀ i ask, run.1[i]? = some ask →
    (ask.amount : Int) ≤ length - (done + (results.take i).sum)
  finished : run.2 = some (length : Int) ↔ done + (results.take run.1.length).sum = length
  stopped : ∀ i result, i < run.1.length → results[i]? = some result → result ≤ 0 →
    run.1.length = i + 1 ∧ run.2 = some result
  returned : ∀ value, run.2 = some value → value = length ∨
    ∃ i, results[i]? = some value ∧ value ≤ 0 ∧ run.1.length = i + 1

/-- The results are those of calls for the bytes still missing: at most what is asked for, or an
error that is an `int`; what comes after a result that is not positive is left open. -/
def Served : Nat → List Int → Prop
  | _, [] => True
  | left, result :: results =>
    left = 0 ∨ -2 ^ 31 ≤ result ∧ result ≤ left ∧ (0 < result → Served (left - result.toNat) results)

/-- No result is negative before all bytes are transferred or the stream ends. -/
def NoError : Nat → List Int → Prop
  | _, [] => True
  | left, result :: results =>
    left = 0 ∨ result = 0 ∨ 0 < result ∧ NoError (left - result.toNat) results

/-! ### Conversions -/

theorem toSize_of_nonneg {value : Int} (positive : 0 ≤ value) (small : value < 2 ^ 31) :
    toSize value = value.toNat := by
  rw [toSize, Int.emod_eq_of_lt positive (by omega)]

theorem toSize_of_neg {value : Int} (negative : value < 0) (int : -2 ^ 31 ≤ value) :
    (toSize value : Int) = 2 ^ 64 + value := by
  have shifted : value % 2 ^ 64 = value + 2 ^ 64 := by omega
  rw [toSize, shifted]
  omega

/-! ### One round -/

section Rounds

variable {advance : Nat → Int → Nat} {length done left place : Nat} {result : Int}
  {results : List Int} {run : List Ask × Option Int}

theorem fixSize_done (advance : Nat → Int → Nat) (length place : Nat) (results : List Int) :
    fixSize advance length place 0 results = ([], some (toInt32 length)) := by
  cases results <;> rfl

theorem fixSize_nil (missing : 0 < left) :
    fixSize advance length place left [] = ([⟨place, left⟩], none) := by
  rw [fixSize, if_pos missing]

theorem fixSize_zero (missing : 0 < left) :
    fixSize advance length place left (0 :: results) = ([⟨place, left⟩], some 0) := by
  rw [fixSize, if_pos missing]
  rfl

theorem fixSize_cons (missing : 0 < left) (more : toSize result ≠ 0) :
    fixSize advance length place left (result :: results) =
      (⟨place, left⟩ :: (fixSize advance length (advance place result)
          (sub64 left (toSize result)) results).1,
        (fixSize advance length (advance place result) (sub64 left (toSize result)) results).2) := by
  rw [fixSize, if_pos missing]
  dsimp only
  rw [if_neg (by omega)]

/-- A loop that has bytes to ask for makes a call. -/
theorem fixSize_asks (missing : 0 < left) (results : List Int) :
    0 < (fixSize advance length place left results).1.length := by
  cases results with
  | nil =>
      rw [fixSize_nil missing]
      exact Nat.one_pos
  | cons result results =>
      rw [fixSize, if_pos missing]
      dsimp only
      split
      · exact Nat.one_pos
      · exact Nat.succ_pos _

/-- **A positive result** leaves the rest of a run in order. -/
theorem inOrder_cons (within : (left : Int) ≤ length - done) (positive : 0 < result) :
    InOrder length done (result :: results) (⟨done, left⟩ :: run.1, run.2) ↔
      InOrder length (done + result.toNat) results run := by
  have moved : ((done + result.toNat : Nat) : Int) = done + result := by omega
  constructor
  · intro order
    refine
      { place := fun i ask asked => ?_
        amount := fun i ask asked => ?_
        finished := ?_
        stopped := fun i value before at_i last => ?_
        returned := fun value isValue => ?_ }
    · have here := order.place (i + 1) ask asked
      rw [List.take_succ_cons, List.sum_cons] at here
      omega
    · have here := order.amount (i + 1) ask asked
      rw [List.take_succ_cons, List.sum_cons] at here
      omega
    · have here := order.finished
      rw [List.length_cons, List.take_succ_cons, List.sum_cons] at here
      rw [moved, add_assoc]
      exact here
    · obtain ⟨ends, same⟩ := order.stopped (i + 1) value (Nat.succ_lt_succ before) at_i last
      exact ⟨Nat.succ.inj ends, same⟩
    · refine (order.returned value isValue).imp_right ?_
      rintro ⟨_ | i, at_i, last, ends⟩
      · obtain rfl : result = value := Option.some.inj at_i
        omega
      · exact ⟨i, at_i, last, Nat.succ.inj ends⟩
  · intro order
    refine
      { place := fun i ask asked => ?_
        amount := fun i ask asked => ?_
        finished := ?_
        stopped := fun i value before at_i last => ?_
        returned := fun value isValue => ?_ }
    · cases i with
      | zero =>
          cases asked
          simp
      | succ i =>
          have here := order.place i ask asked
          rw [List.take_succ_cons, List.sum_cons]
          omega
    · cases i with
      | zero =>
          cases asked
          simpa using within
      | succ i =>
          have here := order.amount i ask asked
          rw [List.take_succ_cons, List.sum_cons]
          omega
    · have here := order.finished
      rw [moved, add_assoc] at here
      rw [List.length_cons, List.take_succ_cons, List.sum_cons]
      exact here
    · cases i with
      | zero =>
          obtain rfl : result = value := Option.some.inj at_i
          omega
      | succ i =>
          obtain ⟨ends, same⟩ := order.stopped i value (Nat.lt_of_succ_lt_succ before) at_i last
          exact ⟨congrArg (· + 1) ends, same⟩
    · refine (order.returned value isValue).imp_right ?_
      rintro ⟨i, at_i, last, ends⟩
      exact ⟨i + 1, at_i, last, congrArg (· + 1) ends⟩

/-- A loop with nothing to ask for returns at once. -/
theorem inOrder_done (results : List Int) (small : length < 2 ^ 31) :
    InOrder length length results (fixSize advance length place 0 results) := by
  rw [fixSize_done, toInt32_of_lt small]
  refine
    { place := fun _ _ asked => by cases asked
      amount := fun _ _ asked => by cases asked
      finished := iff_of_true rfl (by simp)
      stopped := fun _ _ before => absurd before (Nat.not_lt_zero _)
      returned := fun _ isValue => Or.inl (Option.some.inj isValue).symm }

/-- A single call is in order when the result it returned, if any, is not positive and is returned. -/
theorem inOrder_last (within : (left : Int) ≤ length - done) (missing : done < length)
    {returned : Option Int} (same : returned = results.head?)
    (last : ∀ result ∈ results.head?, result ≤ 0) (zero : ∀ result ∈ results.head?, 0 ≤ result) :
    InOrder length done results ([⟨done, left⟩], returned) := by
  have nothing : (results.take 1).sum = 0 := by
    cases results with
    | nil => rfl
    | cons result results =>
        have sign := last result rfl
        have sign' := zero result rfl
        simp only [List.take_succ_cons, List.take_zero, List.sum_cons, List.sum_nil]
        omega
  refine
    { place := fun i ask asked => ?_
      amount := fun i ask asked => ?_
      finished := ?_
      stopped := fun i value before at_i _ => ?_
      returned := fun value isValue => ?_ }
  · cases i with
    | zero =>
        cases asked
        simp
    | succ i => cases asked
  · cases i with
    | zero =>
        cases asked
        simpa using within
    | succ i => cases asked
  · rw [List.length_singleton, nothing]
    refine iff_of_false (fun isLength => ?_) (by omega)
    have sign := last length (same.symm.trans isLength)
    omega
  · obtain rfl : i = 0 := Nat.lt_one_iff.mp before
    exact ⟨rfl, by rw [same, List.head?_eq_getElem?, at_i]⟩
  · refine Or.inr ⟨0, ?_, last value (same.symm.trans isValue), rfl⟩
    rw [← List.head?_eq_getElem?, ← same]
    exact isValue

/-- **A run is in order exactly when no error comes before its end.** The induction is over the
results; a positive one leaves the rest of the run, a negative one leaves a loop that goes on. -/
theorem fixSize_inOrder_iff
    (advances : ∀ (place : Nat) (result : Int), 0 < result → place + result < 2 ^ 31 →
      advance place result = place + result.toNat) (small : length < 2 ^ 31) :
    ∀ (results : List Int) {done : Nat}, done ≤ length → Served (length - done) results →
      (InOrder length done results (fixSize advance length done (length - done) results) ↔
        NoError (length - done) results) := by
  intro results
  induction results with
  | nil =>
      intro done within _
      refine iff_of_true ?_ trivial
      rcases Nat.eq_or_lt_of_le within with rfl | missing
      · rw [Nat.sub_self]
        exact inOrder_done [] small
      · rw [fixSize_nil (by omega)]
        exact inOrder_last (by omega) missing rfl (fun _ absent => nomatch absent)
          fun _ absent => nomatch absent
  | cons result results ih =>
      intro done within served
      rcases Nat.eq_or_lt_of_le within with rfl | missing
      · rw [Nat.sub_self]
        exact iff_of_true (inOrder_done _ small) (Or.inl rfl)
      obtain ⟨int, bounded, later⟩ := served.resolve_left (by omega)
      rcases lt_trichotomy result 0 with negative | rfl | positive
      · -- The loop takes the error for a length and asks again.
        have huge := toSize_of_neg negative int
        have goes_on : 0 < sub64 (length - done) (toSize result) := by
          rw [sub64, Nat.mod_eq_of_lt (by omega : toSize result < 2 ^ 64),
            Nat.mod_eq_of_lt (by omega)]
          omega
        refine iff_of_false (fun order => ?_) ?_
        · rw [fixSize_cons (by omega) (by omega)] at order
          have ends := (order.stopped 0 result (Nat.succ_pos _) rfl negative.le).1
          have again : 0 < (fixSize advance length (advance done result) _ results).1.length :=
            fixSize_asks goes_on results
          rw [List.length_cons] at ends
          omega
        · rintro (longer | zero | ⟨positive, _⟩) <;> omega
      · refine iff_of_true ?_ (Or.inr (Or.inl rfl))
        rw [fixSize_zero (by omega)]
        exact inOrder_last (by omega) missing rfl (fun _ same => (Option.some.inj same).ge)
          fun _ same => (Option.some.inj same).le
      · have counted := toSize_of_nonneg positive.le (by omega)
        have left : sub64 (length - done) (toSize result) = length - (done + result.toNat) := by
          rw [counted, sub64_of_le (by omega) (by omega)]
          omega
        have rest := ih (by omega : done + result.toNat ≤ length)
          (by
            rw [show length - (done + result.toNat) = length - done - result.toNat by omega]
            exact later positive)
        rw [fixSize_cons (by omega) (by omega), left, advances done result positive (by omega),
          inOrder_cons (by omega) positive, rest, NoError,
          show length - (done + result.toNat) = length - done - result.toNat by omega]
        exact ⟨fun rest => Or.inr (Or.inr ⟨positive, rest⟩), fun all =>
          ((all.resolve_left (by omega)).resolve_left positive.ne').2⟩

end Rounds

/-! ### The four functions -/

theorem offsetAdvance_of_pos {place : Nat} {result : Int} (positive : 0 < result)
    (small : place + result < 2 ^ 31) : offsetAdvance place result = place + result.toNat := by
  rw [offsetAdvance, toSize_of_nonneg positive.le (by omega), add64_of_lt (by omega)]

theorem positionAdvance_of_pos {place : Nat} {result : Int} (positive : 0 < result) :
    positionAdvance place result = place + result.toNat := if_pos positive

/-- **The four functions transfer exactly when the underlying call does not fail on the way.** For
every length up to `INT_MAX` and every sequence of results, each of them is in order if and only if
no result is negative before all bytes are transferred or the stream ends. -/
theorem fixSize_exact_iff (length : Nat) (small : length < 2 ^ 31) (results : List Int)
    (served : Served length results) :
    (InOrder length 0 results (readFixSize length results) ↔ NoError length results) ∧
      (InOrder length 0 results (readFixSizeByteArray length results) ↔ NoError length results) ∧
      (InOrder length 0 results (writeFixSize length results) ↔ NoError length results) ∧
      (InOrder length 0 results (writeFixSizeByteArray length results) ↔ NoError length results) := by
  have buffer : InOrder length 0 results (readFixSize length results) ↔ NoError length results :=
    fixSize_inOrder_iff (fun _ _ positive small => offsetAdvance_of_pos positive small) small
      results (Nat.zero_le length) served
  have byteArray : InOrder length 0 results (readFixSizeByteArray length results) ↔
      NoError length results :=
    fixSize_inOrder_iff (fun _ _ positive _ => positionAdvance_of_pos positive) small results
      (Nat.zero_le length) served
  exact ⟨buffer, byteArray, buffer, byteArray⟩

/-- Ten bytes in two pieces, and four of ten before the end of the stream. -/
theorem fixSize_exact_pieces :
    InOrder 10 0 [4, 6] (readFixSize 10 [4, 6]) ∧ InOrder 10 0 [4, 0] (writeFixSize 10 [4, 0]) :=
  ⟨(fixSize_exact_iff 10 (by decide) [4, 6] (Or.inr ⟨by decide, by decide, fun _ =>
      Or.inr ⟨by decide, by decide, fun _ => trivial⟩⟩)).1.mpr
      (Or.inr (Or.inr ⟨by decide, Or.inr (Or.inr ⟨by decide, trivial⟩)⟩)),
    (fixSize_exact_iff 10 (by decide) [4, 0] (Or.inr ⟨by decide, by decide, fun _ =>
      Or.inr ⟨by decide, by decide, fun _ => trivial⟩⟩)).2.2.1.mpr
      (Or.inr (Or.inr ⟨by decide, Or.inr (Or.inl rfl)⟩))⟩

/-- **An error after four of ten bytes** is not returned: the next call asks for seven bytes where six
are missing, for a buffer from the place of the fourth byte on. -/
theorem fixSize_exact_fails :
    readFixSize 10 [4, -1] = ([⟨0, 10⟩, ⟨4, 6⟩, ⟨3, 7⟩], none) ∧
      readFixSizeByteArray 10 [4, -1] = ([⟨0, 10⟩, ⟨4, 6⟩, ⟨4, 7⟩], none) ∧
      ¬ InOrder 10 0 [4, -1] (readFixSize 10 [4, -1]) ∧
      ¬ InOrder 10 0 [4, -1] (readFixSizeByteArray 10 [4, -1]) ∧
      ¬ InOrder 10 0 [4, -1] (writeFixSize 10 [4, -1]) ∧
      ¬ InOrder 10 0 [4, -1] (writeFixSizeByteArray 10 [4, -1]) := by
  have buffer : fixSize offsetAdvance 10 0 10 [4, -1] = ([⟨0, 10⟩, ⟨4, 6⟩, ⟨3, 7⟩], none) := by decide
  have byteArray : fixSize positionAdvance 10 0 10 [4, -1] =
      ([⟨0, 10⟩, ⟨4, 6⟩, ⟨4, 7⟩], none) := by decide
  have tooMuch : ∀ {run : List Ask × Option Int} {place : Nat},
      run = ([⟨0, 10⟩, ⟨4, 6⟩, ⟨place, 7⟩], none) → ¬ InOrder 10 0 [4, -1] run := by
    rintro _ place rfl order
    have ends : 3 = 1 + 1 := (order.stopped 1 (-1) (show 1 < 3 by decide) rfl (by decide)).1
    exact absurd ends (by decide)
  exact ⟨buffer, byteArray, tooMuch buffer, tooMuch byteArray, tooMuch buffer, tooMuch byteArray⟩

end Wyze.Stream
