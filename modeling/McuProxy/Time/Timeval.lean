/-
# Two-component time

`struct timeval` as both timer queues use it: seconds and microseconds, compared
component by component and subtracted with a borrow that stops at zero. On
normalised values these are the order and the truncated subtraction of the
number of microseconds, which is the only thing the queues' proofs use.
-/

import Mathlib.Order.Lattice
import Mathlib.Data.Prod.Lex
import Mathlib.Tactic

namespace McuProxy.Time

/-- `struct timeval`. -/
@[ext]
structure Timeval where
  tvSec : Int
  tvUsec : Int
  deriving DecidableEq, Repr

namespace Timeval

def million : Int := 1000000

/-- `TV_ZERO` of one queue and `DELAY_ZERO` of the other. -/
def zero : Timeval := ⟨0, 0⟩

/-- `{0x7FFFFFFF, MILLION - 1}`. -/
def infinity : Timeval := ⟨0x7FFFFFFF, million - 1⟩

/-- The number of microseconds a value stands for. -/
def micros (tv : Timeval) : Int := tv.tvSec * 1000000 + tv.tvUsec

/-- The microseconds are a proper fraction of a second. -/
def Normalised (tv : Timeval) : Prop := 0 ≤ tv.tvUsec ∧ tv.tvUsec < 1000000

instance (tv : Timeval) : Decidable tv.Normalised := inferInstanceAs (Decidable (_ ∧ _))

/-- A normalised time span. -/
def Delay (tv : Timeval) : Prop := 0 ≤ tv.tvSec ∧ tv.Normalised

instance (tv : Timeval) : Decidable tv.Delay := inferInstanceAs (Decidable (_ ∧ _))

/-- Seconds first, then microseconds. -/
instance : LinearOrder Timeval :=
  LinearOrder.lift' (fun tv => toLex (tv.tvSec, tv.tvUsec)) fun first second heq => by
    have hpair : (first.tvSec, first.tvUsec) = (second.tvSec, second.tvUsec) := toLex.injective heq
    exact Timeval.ext (congrArg Prod.fst hpair) (congrArg Prod.snd hpair)

theorem le_iff {first second : Timeval} :
    first ≤ second ↔ first.tvSec < second.tvSec ∨
      first.tvSec = second.tvSec ∧ first.tvUsec ≤ second.tvUsec :=
  Prod.Lex.toLex_le_toLex

end Timeval

open Timeval

/-- `time_interval`, the same in both queues: `tv2 - tv1`, or zero when that is
negative. -/
def timeInterval (tv2 tv1 : Timeval) : Timeval :=
  let ret : Timeval := ⟨tv2.tvSec - tv1.tvSec, tv2.tvUsec - tv1.tvUsec⟩
  let ret := if ret.tvUsec < 0 then ⟨ret.tvSec - 1, ret.tvUsec + million⟩ else ret
  if ret.tvSec < 0 then zero else ret

/-- `time_overthan`, the same in both queues: whether `tv2 >= tv1`. -/
def timeOverthan (tv2 tv1 : Timeval) : Bool :=
  tv2.tvSec > tv1.tvSec || (tv2.tvSec = tv1.tvSec && tv2.tvUsec ≥ tv1.tvUsec)

/-- The loop of `time_plus`, which carries whole seconds; one unit of fuel for
each second. -/
def carryUsec : Nat → Timeval → Timeval
  | 0, tv => tv
  | fuel + 1, tv =>
      if tv.tvUsec ≥ million then carryUsec fuel ⟨tv.tvSec + 1, tv.tvUsec - million⟩ else tv

def maxPeriodDelay : Nat := 2146483

/-- `time_plus`: `tv + mseconds`, unless the delay is out of range. -/
def timePlus (tv : Timeval) (mseconds : Nat) : Timeval :=
  if mseconds > maxPeriodDelay then tv
  else
    let tv : Timeval := ⟨tv.tvSec, tv.tvUsec + mseconds * 1000⟩
    carryUsec (tv.tvUsec / million).toNat tv

/-- The code's comparison is the order of `Timeval`. -/
theorem timeOverthan_iff {tv2 tv1 : Timeval} : timeOverthan tv2 tv1 = true ↔ tv1 ≤ tv2 := by
  simp only [timeOverthan, le_iff, Bool.or_eq_true, Bool.and_eq_true, decide_eq_true_eq, gt_iff_lt,
    ge_iff_le]
  omega

theorem timeOverthan_eq_decide (tv2 tv1 : Timeval) :
    timeOverthan tv2 tv1 = decide (tv1 ≤ tv2) := by
  rw [Bool.eq_iff_iff, timeOverthan_iff, decide_eq_true_iff]

/-- On normalised values the order counts microseconds. -/
theorem le_iff_micros_le {first second : Timeval} (hfirst : first.Normalised)
    (hsecond : second.Normalised) : first ≤ second ↔ first.micros ≤ second.micros := by
  obtain ⟨_, _⟩ := hfirst
  obtain ⟨_, _⟩ := hsecond
  rw [le_iff, micros, micros]
  omega

/-- Interval of normalised values: a delay, and the truncated difference. -/
theorem timeInterval_spec {tv2 tv1 : Timeval} (h2 : tv2.Normalised) (h1 : tv1.Normalised) :
    (timeInterval tv2 tv1).Delay ∧
      (timeInterval tv2 tv1).micros = max 0 (tv2.micros - tv1.micros) := by
  obtain ⟨_, _⟩ := h2
  obtain ⟨_, _⟩ := h1
  unfold timeInterval
  dsimp only
  split_ifs <;> simp only [Delay, Normalised, micros, zero, million] at * <;> omega

/-- Carrying changes the representation only. -/
theorem carryUsec_micros (fuel : Nat) (tv : Timeval) : (carryUsec fuel tv).micros = tv.micros := by
  induction fuel generalizing tv with
  | zero => rfl
  | succ fuel ih =>
      rw [carryUsec]
      split
      · rw [ih]
        simp only [micros, million]
        omega
      · rfl

/-- With a unit of fuel for each whole second, carrying ends normalised. -/
theorem carryUsec_normalised (fuel : Nat) (tv : Timeval) (husec : 0 ≤ tv.tvUsec)
    (hfuel : tv.tvUsec < (fuel + 1) * 1000000) : (carryUsec fuel tv).Normalised := by
  induction fuel generalizing tv with
  | zero =>
      refine ⟨husec, ?_⟩
      rw [carryUsec]
      omega
  | succ fuel ih =>
      rw [carryUsec]
      split
      · rename_i hcarry
        simp only [million] at hcarry
        apply ih <;> simp only [million] <;> push_cast at hfuel <;> omega
      · rename_i hdone
        simp only [million, ge_iff_le, not_le] at hdone
        exact ⟨husec, hdone⟩

/-- `time_plus` of an admissible delay adds exactly that delay. -/
theorem timePlus_micros (tv : Timeval) {mseconds : Nat} (hdelay : mseconds ≤ maxPeriodDelay) :
    (timePlus tv mseconds).micros = tv.micros + mseconds * 1000 := by
  rw [timePlus, if_neg (not_lt.mpr hdelay), carryUsec_micros]
  simp only [micros]
  omega

/-- Whatever the delay, `time_plus` adds no more than the largest admissible one. -/
theorem timePlus_micros_le (tv : Timeval) (mseconds : Nat) :
    (timePlus tv mseconds).micros ≤ tv.micros + maxPeriodDelay * 1000 := by
  by_cases hdelay : mseconds ≤ maxPeriodDelay
  · rw [timePlus_micros tv hdelay]
    omega
  · rw [timePlus, if_pos (not_le.mp hdelay)]
    simp only [maxPeriodDelay]
    omega

/-- `time_plus` of a normalised reading is normalised. -/
theorem timePlus_normalised {tv : Timeval} (htv : tv.Normalised) (mseconds : Nat) :
    (timePlus tv mseconds).Normalised := by
  obtain ⟨hlow, hhigh⟩ := htv
  unfold timePlus
  split
  · exact ⟨hlow, hhigh⟩
  · apply carryUsec_normalised <;> simp only [million] <;> omega

end McuProxy.Time
