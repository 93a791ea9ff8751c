/-
# Signed arithmetic and counted loops of C

A C expression may have no defined result: a signed overflow, an access out of
bounds. The result of a computation is therefore optional, and a loop
`for (i = 0; i < n; ++i)` is the iteration of an optional body. Each loop is
reasoned about once, by an invariant indexed by the counter; the same rule
shows that the loop has a result, so no statement about a loop is conditional
on the loop being defined.
-/

import Mathlib.Logic.Function.Basic

namespace McuProxy.Math

universe u v

variable {σ : Type u} {α : Type v}

/-- The result of a signed 32-bit operation whose mathematical value is `value`;
an overflow is undefined. -/
def int32 (value : Int) : Option Int :=
  if -2147483648 ≤ value ∧ value ≤ 2147483647 then some value else none

theorem int32_eq_some {value : Int} (hlow : -2147483648 ≤ value) (hhigh : value ≤ 2147483647) :
    int32 value = some value :=
  if_pos ⟨hlow, hhigh⟩

/-- `for (i = 0; i < n; ++i) body`, with `none` for a body that has no defined
result. -/
def forUpto (body : Nat → σ → Option σ) : Nat → σ → Option σ
  | 0, state => some state
  | n + 1, state => (forUpto body n state).bind (body n)

theorem forUpto_succ (body : Nat → σ → Option σ) (n : Nat) (state : σ) :
    forUpto body (n + 1) state = (forUpto body n state).bind (body n) := rfl

/-- The invariant rule. A body that is defined and re-establishes the invariant
at every counter value below the bound gives a loop that is defined and ends in
the invariant at the bound. -/
theorem forUpto_invariant (body : Nat → σ → Option σ) {n : Nat} (start : σ)
    (Inv : Nat → σ → Prop) (hstart : Inv 0 start)
    (hstep : ∀ i state, i < n → Inv i state →
      ∃ next, body i state = some next ∧ Inv (i + 1) next) :
    ∃ final, forUpto body n start = some final ∧ Inv n final := by
  induction n with
  | zero => exact ⟨start, rfl, hstart⟩
  | succ n ih =>
      obtain ⟨middle, hmiddle, hinv⟩ :=
        ih fun i state hi => hstep i state (Nat.lt_succ_of_lt hi)
      obtain ⟨final, hfinal, hinv'⟩ := hstep n middle (Nat.lt_succ_self n) hinv
      refine ⟨final, ?_, hinv'⟩
      rw [forUpto_succ, hmiddle, Option.bind_some, hfinal]

/-- `for (i = 0; i < n; ++i) cells[i] = value(i, cells[i])`. -/
def forCells (value : Nat → α → Option α) (n : Nat) (cells : Nat → α) : Option (Nat → α) :=
  forUpto (fun i cells => (value i (cells i)).map (Function.update cells i)) n cells

/-- A loop over cells rewrites exactly the cells below its bound, each from its
own old value. -/
theorem forCells_eq {value : Nat → α → Option α} {n : Nat} {start : Nat → α}
    (result : Nat → α) (hvalue : ∀ i, i < n → value i (start i) = some (result i)) :
    forCells value n start = some fun i => if i < n then result i else start i := by
  obtain ⟨final, hfinal, hinv⟩ := forUpto_invariant
    (fun i cells => (value i (cells i)).map (Function.update cells i)) (n := n) start
    (fun bound cells => ∀ i, cells i = if i < bound then result i else start i)
    (by simp) (by
      intro i cells hi hcells
      have hold : cells i = start i := by simp [hcells]
      refine ⟨Function.update cells i (result i), by rw [hold, hvalue i hi]; rfl, ?_⟩
      intro k
      by_cases hk : k = i
      · subst k
        simp
      · rw [Function.update_of_ne hk, hcells]
        have hbound : k < i ↔ k < i + 1 := by omega
        simp only [hbound])
  rw [forCells, hfinal]
  exact congrArg some (funext hinv)

/-- What a loop over cells has done, when it is defined. -/
theorem forCells_cases {value : Nat → α → Option α} {n : Nat} {start final : Nat → α}
    (hfinal : forCells value n start = some final) (i : Nat) :
    (i < n ∧ value i (start i) = some (final i)) ∨ (n ≤ i ∧ final i = start i) := by
  induction n generalizing final with
  | zero =>
      obtain rfl := Option.some.inj hfinal
      exact .inr ⟨Nat.zero_le i, rfl⟩
  | succ n ih =>
      rw [forCells, forUpto_succ, Option.bind_eq_some_iff] at hfinal
      obtain ⟨middle, hmiddle, hlast⟩ := hfinal
      obtain ⟨cell, hcell, rfl⟩ := Option.map_eq_some_iff.mp hlast
      by_cases hi : i = n
      · subst hi
        rcases ih hmiddle with ⟨hbelow, -⟩ | ⟨-, hstart⟩
        · exact absurd hbelow (Nat.lt_irrefl i)
        · exact .inl ⟨Nat.lt_succ_self i, by rw [Function.update_self, ← hstart, hcell]⟩
      · rw [Function.update_of_ne hi]
        rcases ih hmiddle with ⟨hbelow, hvalue⟩ | ⟨habove, hstart⟩
        · exact .inl ⟨Nat.lt_succ_of_lt hbelow, hvalue⟩
        · exact .inr ⟨Nat.lt_of_le_of_ne habove (Ne.symm hi), hstart⟩

end McuProxy.Math
