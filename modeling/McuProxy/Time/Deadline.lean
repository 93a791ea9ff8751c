/-
# Deadlines on 32-bit fields

`time_plus` adds a whole delay to the microseconds of a clock reading and carries
the seconds afterwards. On 32-bit fields the sum before the carry comes within a
thousand of `2 ^ 31` for the largest delay that is let through, so whether it fits
is decided by the constant that refuses longer ones.

Here every step is computed on 32-bit fields and has no result where it does not
fit, and the loop has a limited number of turns. That the result is there, and
that it is the one of `timePlus`, is the whole content.
-/

import McuProxy.Math.CSemantics
import McuProxy.Time.Timeval

namespace McuProxy.Time

open McuProxy.Math Timeval

/-- The loop of `time_plus` on 32-bit fields. There is no result where a field
overflows, and none when the turns are spent. -/
def carryUsec32 : Nat → Timeval → Option Timeval
  | 0, _ => none
  | turns + 1, tv =>
      if tv.tvUsec ≥ million then do
        let tvUsec ← int32 (tv.tvUsec - million)
        let tvSec ← int32 (tv.tvSec + 1)
        carryUsec32 turns ⟨tvSec, tvUsec⟩
      else some tv

/-- One turn for each second of the largest sum, and one that ends the loop. -/
def carryTurns : Nat := 2148

/-- `time_plus` on 32-bit fields. The product is unsigned; a sum that is not a value
of `tv_usec` counts as an overflow. -/
def timePlus32 (tv : Timeval) (mseconds : Nat) : Option Timeval :=
  if mseconds > maxPeriodDelay then some tv
  else do
    let tvUsec ← int32 (tv.tvUsec + (mseconds * 1000 % 4294967296 : Nat))
    carryUsec32 carryTurns ⟨tv.tvSec, tvUsec⟩

/-- A clock reading with room for the carried seconds, and a delay that is let
through. -/
structure Addable (tv : Timeval) (mseconds : Nat) : Prop where
  normalised : tv.Normalised
  tvSec_low : -2147483648 ≤ tv.tvSec
  tvSec_high : tv.tvSec + 2147 < 2147483648
  delay : mseconds ≤ maxPeriodDelay

/-- With a turn for each whole second and one more, carrying does not overflow
unless the seconds do. -/
theorem carryUsec32_eq (turns : Nat) (tv : Timeval) (husec : 0 ≤ tv.tvUsec)
    (hfits : tv.tvUsec ≤ 2147483647) (hturns : tv.tvUsec < (turns + 1) * 1000000)
    (hlow : -2147483648 ≤ tv.tvSec) (hhigh : tv.tvSec + tv.tvUsec / 1000000 ≤ 2147483647) :
    carryUsec32 (turns + 1) tv = some (carryUsec turns tv) := by
  induction turns generalizing tv with
  | zero =>
      have hdone : ¬ tv.tvUsec ≥ million := by
        rw [million]
        omega
      rw [carryUsec32, if_neg hdone, carryUsec]
  | succ turns ih =>
      rw [carryUsec32, carryUsec]
      split
      · rename_i hcarry
        rw [million] at hcarry
        have husec' : int32 (tv.tvUsec - million) = some (tv.tvUsec - million) := by
          apply int32_eq_some <;> rw [million] <;> omega
        have hsec' : int32 (tv.tvSec + 1) = some (tv.tvSec + 1) := by
          apply int32_eq_some <;> omega
        rw [husec', hsec', Option.bind_eq_bind, Option.bind_some, Option.bind_some]
        apply ih <;> simp only [million] <;> push_cast at hturns <;> omega
      · rfl

/-- Normalised values that stand for the same number of microseconds are equal. -/
theorem Timeval.Normalised.eq {first second : Timeval} (hfirst : first.Normalised)
    (hsecond : second.Normalised) (hmicros : first.micros = second.micros) : first = second := by
  obtain ⟨_, _⟩ := hfirst
  obtain ⟨_, _⟩ := hsecond
  rw [micros, micros] at hmicros
  ext <;> omega

/-- On 32-bit fields `time_plus` has a result, the one of unbounded fields. -/
theorem timePlus32_eq {tv : Timeval} {mseconds : Nat} (hadd : Addable tv mseconds) :
    timePlus32 tv mseconds = some (timePlus tv mseconds) := by
  have hnormal := timePlus_normalised hadd.normalised mseconds
  have hmicros := timePlus_micros tv hadd.delay
  obtain ⟨⟨husec, hmillion⟩, hlow, hhigh, hdelay⟩ := hadd
  rw [timePlus32, if_neg (not_lt.mpr hdelay)]
  rw [maxPeriodDelay] at hdelay
  rw [Nat.mod_eq_of_lt (by omega)]
  obtain ⟨sum, hsum⟩ : ∃ sum : Int, tv.tvUsec + (mseconds * 1000 : Nat) = sum := ⟨_, rfl⟩
  have hsum_nonneg : 0 ≤ sum := by omega
  have hsum_fits : sum ≤ 2147482999 := by omega
  rw [hsum, int32_eq_some (by omega) (by omega), Option.bind_eq_bind, Option.bind_some, carryTurns,
    carryUsec32_eq 2147 ⟨tv.tvSec, sum⟩ hsum_nonneg (by dsimp only; omega) (by dsimp only; omega)
      hlow (by dsimp only; omega)]
  apply congrArg some
  apply Normalised.eq _ hnormal
  · rw [carryUsec_micros, hmicros, micros, micros]
    dsimp only
    omega
  · apply carryUsec_normalised
    · exact hsum_nonneg
    · dsimp only
      omega

/-- `time_plus` on 32-bit fields adds exactly the delay, and `time_overthan`
compares what it returns by the deadlines. -/
theorem timePlus32_exact {tv1 tv2 : Timeval} {mseconds1 mseconds2 : Nat}
    (hadd1 : Addable tv1 mseconds1) (hadd2 : Addable tv2 mseconds2) :
    ∃ deadline1 deadline2,
      timePlus32 tv1 mseconds1 = some deadline1 ∧ timePlus32 tv2 mseconds2 = some deadline2 ∧
        (deadline1.Normalised ∧ deadline1.micros = tv1.micros + mseconds1 * 1000) ∧
        (deadline2.Normalised ∧ deadline2.micros = tv2.micros + mseconds2 * 1000) ∧
        (timeOverthan deadline1 deadline2 = true ↔
          tv2.micros + mseconds2 * 1000 ≤ tv1.micros + mseconds1 * 1000) := by
  have hnormal1 := timePlus_normalised hadd1.normalised mseconds1
  have hnormal2 := timePlus_normalised hadd2.normalised mseconds2
  have hmicros1 := timePlus_micros tv1 hadd1.delay
  have hmicros2 := timePlus_micros tv2 hadd2.delay
  refine ⟨_, _, timePlus32_eq hadd1, timePlus32_eq hadd2, ⟨hnormal1, hmicros1⟩,
    ⟨hnormal2, hmicros2⟩, ?_⟩
  rw [timeOverthan_iff, le_iff_micros_le hnormal2 hnormal1, hmicros1, hmicros2]

/-- The largest delay from the last microsecond of a second, and a short one that is
due at the same time. -/
theorem timePlus32_exact_largest :
    ∃ deadline1 deadline2,
      timePlus32 ⟨1400000000, 999999⟩ 2146483 = some deadline1 ∧
        timePlus32 ⟨1400002147, 481999⟩ 1 = some deadline2 ∧
        (deadline1.Normalised ∧
          deadline1.micros = micros ⟨1400000000, 999999⟩ + (2146483 : Nat) * 1000) ∧
        (deadline2.Normalised ∧
          deadline2.micros = micros ⟨1400002147, 481999⟩ + (1 : Nat) * 1000) ∧
        (timeOverthan deadline1 deadline2 = true ↔
          micros ⟨1400002147, 481999⟩ + (1 : Nat) * 1000 ≤
            micros ⟨1400000000, 999999⟩ + (2146483 : Nat) * 1000) :=
  timePlus32_exact ⟨by decide, by decide, by decide, by decide⟩
    ⟨by decide, by decide, by decide, by decide⟩

end McuProxy.Time
