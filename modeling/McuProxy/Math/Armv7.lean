/-
# Words, flags and counted loops of ARMv7

What hand-written routines rely on: registers hold 32-bit words, a saturating
instruction clamps what a shift has left of a word, a conditional branch reads
flags that not every instruction sets, and a loop that counts up ends when its
counter is *equal* to a limit. Such a loop runs at least once, and it runs as
often as the limit says only when the counter meets the limit.
-/

import McuProxy.Math.CSemantics
import Mathlib.Tactic

namespace McuProxy.Math

universe u

variable {σ : Type u}

/-- The signed value of a register after an operation with the given result. -/
def signed32 (value : Int) : Int := value.bmod 4294967296

/-- Where a signed operation of C is defined, the register holds its result. -/
theorem signed32_of_int32 {value result : Int} (hvalue : int32 value = some result) :
    signed32 value = result := by
  unfold int32 at hvalue
  split at hvalue
  · rename_i hrange
    obtain rfl := Option.some.inj hvalue
    rw [signed32, Int.bmod_eq_of_le (by omega) (by omega)]
  · cases hvalue

/-- `ssat` to 16 bits. -/
def ssat16 (value : Int) : Int16 :=
  if value > 32767 then 32767
  else if value < -32768 then -32768
  else Int16.ofInt value

/-- A lane of `vqshl.s16 #1`. -/
def vqshl (lane : Int16) : Int16 := ssat16 (lane.toInt * 2)

/-- The condition of `ble`. -/
def ble (z n v : Bool) : Bool := z || n != v

/-- `do body; counter += step while (counter != limit)` on a 32-bit counter. -/
def untilEqual (step limit : Nat) (body : Nat → σ → σ) : Nat → Nat → σ → σ
  | 0, _, state => state
  | fuel + 1, counter, state =>
      let state := body counter state
      let counter := (counter + step) % 4294967296
      if counter = limit then state else untilEqual step limit body fuel counter state

/-- More turns than any loop makes whose counter meets its limit. -/
def allTurns : Nat := 4294967296

/-- The invariant rule for a loop whose limit is `n` steps away. -/
theorem untilEqual_invariant {step n : Nat} {body : Nat → σ → σ} (Inv : Nat → σ → Prop)
    (hstep : 0 < step) (hn : 0 < n) (hlimit : step * n < 4294967296)
    (hbody : ∀ k state, k < n → Inv k state → Inv (k + 1) (body (step * k) state))
    {start : σ} (hstart : Inv 0 start) :
    Inv n (untilEqual step (step * n) body allTurns 0 start) := by
  have hturns : n ≤ allTurns := by
    have hle : 1 * n ≤ step * n := Nat.mul_le_mul_right n hstep
    rw [allTurns]
    omega
  -- with `n - k` turns left, the counter is at `step * k`
  have hgo : ∀ fuel k state, k < n → n ≤ k + fuel → Inv k state →
      Inv n (untilEqual step (step * n) body fuel (step * k) state) := by
    intro fuel
    induction fuel with
    | zero =>
        intro k state hk hfuel _
        omega
    | succ fuel ih =>
        intro k state hk hfuel hinv
        have hnext : step * (k + 1) ≤ step * n := Nat.mul_le_mul_left step hk
        have hcounter : (step * k + step) % 4294967296 = step * (k + 1) := by
          exact Nat.mod_eq_of_lt (lt_of_le_of_lt hnext hlimit)
        have hinv' := hbody k state hk hinv
        simp only [untilEqual, hcounter]
        split
        · rename_i hend
          obtain rfl : k + 1 = n := Nat.eq_of_mul_eq_mul_left hstep hend
          exact hinv'
        · rename_i hmore
          have hlast : k + 1 ≠ n := fun heq => hmore (by rw [heq])
          exact ih (k + 1) _ (by omega) (by omega) hinv'
  exact hgo allTurns 0 start hn (by omega) hstart

end McuProxy.Math
