/-
**The hooked `sleep`, `usleep` and `nanosleep`.**

Each converts its argument to milliseconds in a type of its own: `sleep` multiplies 32-bit unsigned
numbers, `usleep` cuts off the microseconds, `nanosleep` cuts off what is below a millisecond and
stores the rest in an `int`. With hooks off `nanosleep` calls itself, not `nanosleep_f`.

`sleeps_long_enough_iff` says for which arguments each call ends with the original function or with
one timer that is not due before the requested time.
-/
import Wyze.Hook.Timeouts

namespace Wyze

/-- `timespec`, as `nanosleep` accepts it. -/
structure Timespec where
  sec : Nat
  nsec : Nat
  normal : nsec < 1000000000
deriving DecidableEq

/-- The requested time, in nanoseconds. -/
def Timespec.nanos (req : Timespec) : Nat := req.sec * 1000000000 + req.nsec

/-- What a call does: the original function, `addTimer` with its delay, `YeildToHold`. -/
inductive SleepEffect where
  | original
  | addTimer (ms : Nat)
  | yeildToHold
deriving DecidableEq

def sleep (hookEnable : Bool) (seconds : UInt32) : List SleepEffect :=
  if !hookEnable then [.original] else [.addTimer (seconds * 1000).toNat, .yeildToHold]

def usleep (hookEnable : Bool) (usec : UInt32) : List SleepEffect :=
  if !hookEnable then [.original] else [.addTimer (usec / 1000).toNat, .yeildToHold]

/-- The `int` that `nanosleep` computes; `none` when the `long` product or sum overflows. -/
def Timespec.timeoutMs (req : Timespec) : Option Int :=
  if Timeval.FitsLong (req.sec * 1000) ∧
      Timeval.FitsLong (req.sec * 1000 + (req.nsec / 1000 / 1000 : Nat)) then
    some (toInt32 (req.sec * 1000 + req.nsec / 1000 / 1000))
  else none

/-- `none` when the calls of itself exceed the fuel. -/
def nanosleep (hookEnable : Bool) (req : Timespec) : Nat → Option (List SleepEffect)
  | 0 => none
  | fuel + 1 =>
    if !hookEnable then nanosleep hookEnable req fuel
    else req.timeoutMs.map fun timeoutMs =>
      [.addTimer (UInt64.ofInt timeoutMs).toNat, .yeildToHold]

/-- **The call sleeps long enough**: by one call of the original function, or by one timer whose
delay is at least the requested time, and which is due no earlier than that time from now. -/
def SleepsFor (effects : List SleepEffect) (nanos now : Nat) : Prop :=
  effects = [.original] ∨ ∃ ms, effects = [.addTimer ms, .yeildToHold] ∧ nanos ≤ ms * 1000000 ∧
    now * 1000000 + nanos ≤ (Timer.new ms () false now).next * 1000000

/-! ### A timer's delay -/

theorem sleepsFor_timer_iff {ms nanos now : Nat} :
    SleepsFor [.addTimer ms, .yeildToHold] nanos now ↔
      nanos ≤ ms * 1000000 ∧ now * 1000000 + nanos ≤ add64 now ms * 1000000 := by
  constructor
  · rintro (original | ⟨ms', same, long, late⟩)
    · cases original
    · cases same
      exact ⟨long, late⟩
  · rintro ⟨long, late⟩
    exact Or.inr ⟨ms, rfl, long, late⟩

/-- A timer for the requested time, to the millisecond, needs only room for its deadline. -/
theorem sleepsFor_exact_iff {ms now : Nat} :
    SleepsFor [.addTimer ms, .yeildToHold] (ms * 1000000) now ↔ now + ms < 2 ^ 64 := by
  rw [sleepsFor_timer_iff, ← add64_eq_iff]
  have small : add64 now ms ≤ now + ms := Nat.mod_le _ _
  omega

/-- A shorter timer is too short. -/
theorem not_sleepsFor_of_lt {ms nanos now : Nat} (short : ms * 1000000 < nanos) :
    ¬ SleepsFor [.addTimer ms, .yeildToHold] nanos now := by
  rw [sleepsFor_timer_iff]
  omega

/-! ### The three functions -/

theorem sleep_iff (hookEnable : Bool) (seconds : UInt32) (now : Nat) :
    SleepsFor (sleep hookEnable seconds) (seconds.toNat * 1000000000) now ↔
      hookEnable = false ∨
        seconds.toNat * 1000 < 2 ^ 32 ∧ now + seconds.toNat * 1000 < 2 ^ 64 := by
  cases hookEnable with
  | false => exact iff_of_true (Or.inl rfl) (Or.inl rfl)
  | true =>
      have product : (seconds * 1000).toNat = seconds.toNat * 1000 % 2 ^ 32 := UInt32.toNat_mul ..
      rw [sleep, if_neg (by decide), product, or_iff_right (by decide)]
      by_cases fits : seconds.toNat * 1000 < 2 ^ 32
      · rw [Nat.mod_eq_of_lt fits, and_iff_right fits, ← sleepsFor_exact_iff,
          show seconds.toNat * 1000 * 1000000 = seconds.toNat * 1000000000 by omega]
      · refine iff_of_false (not_sleepsFor_of_lt ?_) fun both => fits both.1
        have small := Nat.mod_lt (seconds.toNat * 1000) (by decide : 0 < 2 ^ 32)
        omega

theorem usleep_iff (hookEnable : Bool) (usec : UInt32) (now : Nat) :
    SleepsFor (usleep hookEnable usec) (usec.toNat * 1000) now ↔
      hookEnable = false ∨ usec.toNat % 1000 = 0 ∧ now + usec.toNat / 1000 < 2 ^ 64 := by
  cases hookEnable with
  | false => exact iff_of_true (Or.inl rfl) (Or.inl rfl)
  | true =>
      have quotient : (usec / 1000).toNat = usec.toNat / 1000 := UInt32.toNat_div ..
      rw [usleep, if_neg (by decide), quotient, or_iff_right (by decide)]
      by_cases whole : usec.toNat % 1000 = 0
      · rw [and_iff_right whole, ← sleepsFor_exact_iff,
          show usec.toNat / 1000 * 1000000 = usec.toNat * 1000 by omega]
      · exact iff_of_false (not_sleepsFor_of_lt (by omega)) fun both => whole both.1

/-- The milliseconds of a request, before the conversion to `int`. -/
def Timespec.ms (req : Timespec) : Nat := req.sec * 1000 + req.nsec / 1000 / 1000

/-- **The requests that `nanosleep` sleeps for**: whole milliseconds below 2³¹; and, when the clock
has not gone further, some whose `int` is negative and makes a deadline that does not wrap. -/
def Timespec.Converts (req : Timespec) (now : Nat) : Prop :=
  req.ms < 2 ^ 31 ∧ req.nsec % 1000000 = 0 ∧ now + req.ms < 2 ^ 64 ∨
    req.ms < 2 ^ 63 ∧ 2 ^ 31 ≤ req.ms % 2 ^ 32 ∧ now < 2 ^ 32 - req.ms % 2 ^ 32

/-- **With hooks off `nanosleep` never returns.** -/
theorem nanosleep_unhooked (req : Timespec) : ∀ fuel, nanosleep false req fuel = none
  | 0 => rfl
  | fuel + 1 => nanosleep_unhooked req fuel

theorem nanosleep_hooked (req : Timespec) {post : List SleepEffect → Prop} :
    (∃ fuel effects, nanosleep true req fuel = some effects ∧ post effects) ↔
      ∃ timeoutMs, req.timeoutMs = some timeoutMs ∧
        post [.addTimer (UInt64.ofInt timeoutMs).toNat, .yeildToHold] := by
  constructor
  · rintro ⟨_ | fuel, effects, returned, holds⟩
    · cases returned
    · rw [nanosleep, if_neg (by decide)] at returned
      obtain ⟨timeoutMs, converted, rfl⟩ := Option.map_eq_some_iff.mp returned
      exact ⟨timeoutMs, converted, holds⟩
  · rintro ⟨timeoutMs, converted, holds⟩
    refine ⟨1, _, ?_, holds⟩
    rw [nanosleep, if_neg (by decide), converted, Option.map_some]

theorem timeoutMs_eq (req : Timespec) :
    req.timeoutMs = if req.ms < 2 ^ 63 then some (toInt32 req.ms) else none := by
  have fits : Timeval.FitsLong (req.sec * 1000) ∧
      Timeval.FitsLong (req.sec * 1000 + (req.nsec / 1000 / 1000 : Nat)) ↔ req.ms < 2 ^ 63 := by
    rw [Timeval.FitsLong, Timeval.FitsLong, Timespec.ms]
    omega
  rw [Timespec.timeoutMs, if_congr fits rfl rfl, Timespec.ms]

/-- The delay that comes of an `int`: a negative one is close to 2⁶⁴. -/
theorem delay_eq (value : Nat) :
    (UInt64.ofInt (toInt32 value)).toNat =
      if value % 2 ^ 32 < 2 ^ 31 then value % 2 ^ 32 else 2 ^ 64 - (2 ^ 32 - value % 2 ^ 32) := by
  have small := Nat.mod_lt value (by decide : 0 < 2 ^ 32)
  have fits : Timeval.FitsLong (toInt32 value) := by
    rw [Timeval.FitsLong, toInt32]
    split <;> omega
  have converted := toNat_ofInt fits
  generalize (UInt64.ofInt (toInt32 value)).toNat = delay at converted ⊢
  rw [toInt32] at converted
  by_cases clear : value % 2 ^ 32 < 2 ^ 31
  · rw [if_pos clear, if_pos (by omega)] at converted
    rw [if_pos clear]
    omega
  · rw [if_neg clear, if_neg (by omega)] at converted
    rw [if_neg clear]
    omega

/-- **The timer for a value of the `int`**: right for whole milliseconds that the `int` holds, too
short when its upper bits are lost, and never due when it is negative and its deadline does not
wrap. -/
theorem sleepsFor_delay_iff {value rest now : Nat} (fraction : rest < 1000000)
    (fits : value < 2 ^ 63) :
    SleepsFor [.addTimer (UInt64.ofInt (toInt32 value)).toNat, .yeildToHold]
        (value * 1000000 + rest) now ↔
      value < 2 ^ 31 ∧ rest = 0 ∧ now + value < 2 ^ 64 ∨
        value < 2 ^ 63 ∧ 2 ^ 31 ≤ value % 2 ^ 32 ∧ now < 2 ^ 32 - value % 2 ^ 32 := by
  rw [delay_eq]
  by_cases clear : value % 2 ^ 32 < 2 ^ 31
  · rw [if_pos clear, or_iff_left (by omega)]
    by_cases held : value < 2 ^ 31 ∧ rest = 0
    · obtain ⟨small, rfl⟩ := held
      rw [Nat.mod_eq_of_lt (by omega), Nat.add_zero, sleepsFor_exact_iff, and_iff_right small,
        and_iff_right rfl]
    · refine iff_of_false (not_sleepsFor_of_lt ?_) fun both => held ⟨both.1, both.2.1⟩
      have lower := Nat.mod_le value (2 ^ 32)
      omega
  · have small := Nat.mod_lt value (by decide : 0 < 2 ^ 32)
    rw [if_neg clear, or_iff_right (by omega), and_iff_right fits, and_iff_right (by omega),
      sleepsFor_timer_iff]
    generalize value % 2 ^ 32 = low at clear small ⊢
    constructor
    · rintro ⟨_, late⟩
      by_contra wraps
      have wrapped : add64 now (2 ^ 64 - (2 ^ 32 - low)) ≤ now - (2 ^ 32 - low) := by
        have same : now + (2 ^ 64 - (2 ^ 32 - low)) = now - (2 ^ 32 - low) + 2 ^ 64 := by omega
        rw [add64, same, Nat.add_mod_right]
        exact Nat.mod_le _ _
      omega
    · intro room
      rw [add64_of_lt (by omega)]
      omega

theorem nanosleep_iff (hookEnable : Bool) (req : Timespec) (now : Nat) :
    (∃ fuel effects, nanosleep hookEnable req fuel = some effects ∧
        SleepsFor effects req.nanos now) ↔ hookEnable = true ∧ req.Converts now := by
  cases hookEnable with
  | false =>
      refine iff_of_false ?_ fun hooked => Bool.false_ne_true hooked.1
      rintro ⟨fuel, effects, returned, _⟩
      rw [nanosleep_unhooked] at returned
      cases returned
  | true =>
      have nanos : req.nanos = req.ms * 1000000 + req.nsec % 1000000 := by
        rw [Timespec.nanos, Timespec.ms]
        omega
      rw [nanosleep_hooked, timeoutMs_eq, and_iff_right rfl, Timespec.Converts, nanos]
      generalize req.ms = value
      have fraction := Nat.mod_lt req.nsec (by decide : 0 < 1000000)
      generalize req.nsec % 1000000 = rest at fraction ⊢
      by_cases fits : value < 2 ^ 63
      · simp only [if_pos fits, Option.some.injEq, exists_eq_left']
        exact sleepsFor_delay_iff fraction fits
      · rw [if_neg fits]
        refine iff_of_false (fun ⟨_, absent, _⟩ => nomatch absent) ?_
        omega

/-! ### All three -/

/-- **When the hooked sleeps sleep long enough.** With hooks off `sleep` and `usleep` call the
original function and `nanosleep` never returns. With hooks on there must be room for the deadline,
and `sleep` needs a product that fits 32 bits, `usleep` whole milliseconds, `nanosleep` a value that
the conversion to `int` keeps. -/
theorem sleeps_long_enough_iff (hookEnable : Bool) (now : Nat) :
    (∀ seconds : UInt32,
      SleepsFor (sleep hookEnable seconds) (seconds.toNat * 1000000000) now ↔
        hookEnable = false ∨
          seconds.toNat * 1000 < 2 ^ 32 ∧ now + seconds.toNat * 1000 < 2 ^ 64) ∧
    (∀ usec : UInt32,
      SleepsFor (usleep hookEnable usec) (usec.toNat * 1000) now ↔
        hookEnable = false ∨ usec.toNat % 1000 = 0 ∧ now + usec.toNat / 1000 < 2 ^ 64) ∧
    ∀ req : Timespec,
      (∃ fuel effects, nanosleep hookEnable req fuel = some effects ∧
        SleepsFor effects req.nanos now) ↔ hookEnable = true ∧ req.Converts now :=
  ⟨fun seconds => sleep_iff hookEnable seconds now, fun usec => usleep_iff hookEnable usec now,
    fun req => nanosleep_iff hookEnable req now⟩

/-- **Each of the three sleeps too short, or not at all.** A `sleep` of 4294968 seconds waits 704
milliseconds, a `usleep` of 999 microseconds none, a `nanosleep` just under a millisecond none, and
with hooks off `nanosleep` does not return. -/
theorem sleeps_long_enough_fails :
    (sleep true 4294968 = [.addTimer 704, .yeildToHold] ∧
        ¬ SleepsFor (sleep true 4294968) (4294968 * 1000000000) 1000) ∧
      (usleep true 999 = [.addTimer 0, .yeildToHold] ∧
        ¬ SleepsFor (usleep true 999) (999 * 1000) 1000) ∧
      (nanosleep true ⟨0, 999999, by decide⟩ 1 = some [.addTimer 0, .yeildToHold] ∧
        ¬ SleepsFor [.addTimer 0, .yeildToHold] 999999 1000) ∧
      ∀ fuel, nanosleep false ⟨1, 0, by decide⟩ fuel = none :=
  ⟨⟨by decide, not_sleepsFor_of_lt (by decide)⟩, ⟨by decide, not_sleepsFor_of_lt (by decide)⟩,
    ⟨by decide, not_sleepsFor_of_lt (by decide)⟩, nanosleep_unhooked _⟩

end Wyze
