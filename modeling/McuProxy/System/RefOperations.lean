/-
# Reference counts, one operation at a time

`RefBase` counts as if every operation were one step. An interleaving of atomic
instructions comes to the same counts: each operation takes effect at one of its
instructions. What it has done to the weak count before, or has yet to do to it, is left
out of the count until then.
-/

import McuProxy.System.RefBase
import McuProxy.System.RefCounts

namespace McuProxy.System

open McuProxy.Math

/-- The operations on the counts of an object. -/
inductive Operation
  | createWeak
  | decWeak
  | incStrong
  | decStrong
  | attemptIncStrong
  deriving DecidableEq, Repr

/-- The operations as steps of a machine. -/
def RefBase.perform (refs : RefBase) : Operation → Option RefBase
  | .createWeak => some refs.createWeak
  | .decWeak => if 0 < refs.mWeak then some refs.decWeak.2 else none
  | .incStrong => some refs.incStrong
  | .decStrong => refs.decStrong.map Prod.snd
  | .attemptIncStrong => some refs.attemptIncStrong.2

/-- The weak references that are counted for a call once everything is settled. -/
@[simp]
def Call.settled : Call → Nat
  | .incStrongFirst _ | .decStrongCount => 1
  | .decWeakCount given => given.toNat
  | _ => 0

namespace RefCounts

/-- The counts once everything is settled. -/
def view (refs : RefCounts) : RefBase where
  mStrong :=
    if refs.pointer = true ∨ 0 < weigh Call.initial refs.calls then none else some refs.references
  mWeak :=
    if refs.pointer = true ∨ 0 < weigh Call.initial refs.calls then 0
    else refs.strong + refs.weak + weigh Call.settled refs.calls

/-- The operations that take effect with a step. -/
def performed (refs : RefCounts) : Step → List Operation
  | .createWeak _ => [.createWeak]
  | .advance (.incStrongCount _) => if refs.mStrong = initialStrongValue then [] else [.incStrong]
  | .advance (.incStrongSub _) => [.incStrong]
  | .advance .decStrongCount => [.decStrong]
  | .advance (.decWeakCount true) => [.decWeak]
  | .advance (.attemptTest curCount) =>
      if 0 < curCount ∧ refs.mStrong = curCount then [.attemptIncStrong] else []
  | .advance .attemptFail => [.attemptIncStrong]
  | _ => []

variable {refs next : RefCounts}

theorem Counted.view_eq (hcounted : Counted refs) :
    refs.view = ⟨some refs.references,
      refs.strong + refs.weak + weigh Call.settled refs.calls⟩ := by
  simp [view, hcounted.pointer, hcounted.initial]

theorem incStrong_some (count weak : Nat) :
    (RefBase.perform ⟨some count, weak⟩ .incStrong) = some ⟨some (count + 1), weak + 1⟩ := rfl

theorem decStrong_succ (count weak : Nat) :
    (RefBase.perform ⟨some (count + 1), weak + 1⟩ .decStrong) = some ⟨some count, weak⟩ := rfl

theorem attemptIncStrong_succ (count weak : Nat) :
    (RefBase.perform ⟨some (count + 1), weak⟩ .attemptIncStrong) =
      some ⟨some (count + 2), weak + 1⟩ := rfl

theorem attemptIncStrong_zero (weak : Nat) :
    (RefBase.perform ⟨some 0, weak⟩ .attemptIncStrong) = some ⟨some 0, weak⟩ := rfl

theorem Counted.advance_performs {call : Call} (hcounted : Counted (refs.goOn call))
    (hsmall : ((refs.goOn call).references : Int) < initialStrongValue) :
    runMachine RefBase.perform (refs.goOn call).view
        ((refs.goOn call).performed (.advance call)) = some (refs.advance call).view := by
  have hlarge := hcounted.not_initial hsmall
  rw [hcounted.view_eq, (hcounted.advance hsmall).view_eq]
  obtain ⟨hpointer, hinitial, hstrong, hweak, hfirst, hlast, hbase, hending, himpl, hfreeing,
    hfailing, hcopying, hpromoting, hwild⟩ := hcounted
  clear hsmall hbase himpl hwild hfirst hlast hweak hending hfreeing hcopying hpromoting
  cases call
  case' incStrongWeak copy | incStrongCount copy => cases copy
  case' decWeakCount given => cases given
  case incStrongWeak.false | incStrongCount.false | incStrongSub | attemptCount |
      attemptSurplus | attemptSub | attemptFirst =>
    simp [goOn] at hinitial
  all_goals
    simp [goOn, references] at hlarge hinitial hstrong hfailing
    simp only [RefCounts.advance, performed, goOn, references, weigh_cons, Call.strong,
      Call.settled, returnStrong, useImpl, useBase, deleteBase]
  case incStrongWeak.true | decStrongLast | decStrongDelete | decWeakLast | attemptWeak |
      attemptRead =>
    simp [hlarge]
  case incStrongFirst =>
    simp
    omega
  case decWeakCount.false => split <;> simp
  case decWeakCount.true =>
    split <;> simp [runMachine_cons, RefBase.perform, RefBase.decWeak] <;> omega
  case incStrongCount.true =>
    simp [hlarge, runMachine_cons, incStrong_some]
    omega
  case decStrongCount =>
    have htaken := decStrong_succ (refs.strong + weigh Call.strong refs.calls)
      (refs.strong + refs.weak + weigh Call.settled refs.calls)
    rw [Nat.add_left_comm refs.strong 1, Nat.add_left_comm _ 1, Nat.add_comm 1, Nat.add_comm 1]
    by_cases hone : refs.mStrong = 1
    all_goals simp [hone, runMachine_cons, htaken]
  case attemptFail =>
    obtain ⟨hstrong, hcalls⟩ : refs.strong = 0 ∧ weigh Call.strong refs.calls = 0 := by omega
    by_cases hone : refs.mWeak = 1
    all_goals
      simp [hone, hstrong, hcalls, runMachine_cons, attemptIncStrong_zero]
  case attemptTest curCount =>
    by_cases hsame : 0 < curCount ∧ refs.mStrong = curCount
    · obtain ⟨count, hcount⟩ := Nat.exists_eq_succ_of_ne_zero
        (n := refs.strong + weigh Call.strong refs.calls) (by omega)
      simp [hsame, hinitial.1, hcount, runMachine_cons, attemptIncStrong_succ]
      omega
    · by_cases hpositive : 0 < curCount
      · have hother : refs.mStrong ≠ curCount := fun h => hsame ⟨hpositive, h⟩
        simp [hpositive, hinitial.1, hother]
      · simp [hpositive, hinitial.1]

/-- A call that begins has done nothing yet. -/
theorem Counted.begin_performs {action : Step} (hcounted : Counted refs)
    (horderly : refs.Orderly action) (hstep : refs.step action = some next)
    (hbegin : ∀ call, action ≠ .advance call) :
    runMachine RefBase.perform refs.view (refs.performed action) = some next.view := by
  rw [hcounted.view_eq, (hcounted.begin horderly hstep hbegin).view_eq]
  cases action with
  | advance call => exact absurd rfl (hbegin call)
  | incStrong copy =>
      cases copy with
      | false => simp [RefCounts.step, hcounted.pointer] at hstep
      | true =>
          simp [RefCounts.step] at hstep
          obtain ⟨hheld, rfl⟩ := hstep
          simp [performed, references, goOn]
  | attemptIncStrong =>
      simp [RefCounts.step] at hstep
      obtain ⟨hheld, rfl⟩ := hstep
      simp [performed, references, goOn]
  | decStrong | decWeak =>
      simp [RefCounts.step] at hstep
      obtain ⟨hheld, rfl⟩ := hstep
      simp [performed, references, goOn]
      omega
  | createWeak holding =>
      simp only [RefCounts.step] at hstep
      split at hstep
      case isFalse => cases hstep
      case isTrue =>
        obtain rfl := Option.some.inj hstep
        simp [performed, runMachine_cons, RefBase.perform, RefBase.createWeak, RefBase.incWeak,
          references]
        split <;> simp [useImpl, useBase] <;> omega

theorem Fresh.performs {action : Step} (hfresh : Fresh refs) (horderly : refs.Orderly action)
    (hstep : refs.step action = some next) :
    runMachine RefBase.perform refs.view (refs.performed action) = some next.view := by
  obtain ⟨rfl, rfl, rfl⟩ | ⟨rfl, rfl, rfl⟩ | ⟨rfl, rfl, rfl⟩ | ⟨rfl, rfl, rfl⟩ :=
    hfresh.step_cases horderly hstep
  all_goals
    simp [view, making, performed, goOn, RefCounts.new, references, runMachine_cons,
      RefBase.perform, RefBase.incStrong, RefBase.incWeak]

theorem Sound.performs {action : Step} (hsound : Sound refs) (horderly : refs.Orderly action)
    (hstep : refs.step action = some next) :
    runMachine RefBase.perform refs.view (refs.performed action) = some next.view := by
  obtain hfresh | hcounted := hsound
  · exact hfresh.performs horderly hstep
  · by_cases hbegin : ∃ call, action = .advance call
    · obtain ⟨call, rfl⟩ := hbegin
      obtain ⟨taken, rfl, rfl⟩ := advance_taken hstep
      exact hcounted.advance_performs horderly.2.1
    · exact hcounted.begin_performs horderly hstep (not_exists.mp hbegin)

/-- The operations that take effect in a run. -/
def operations : RefCounts → List Step → List Operation
  | _, [] => []
  | refs, action :: actions =>
      refs.performed action ++ ((refs.step action).map fun next => operations next actions).getD []

theorem Sound.run_performs {steps : List Step} {final : RefCounts} (hsound : Sound refs)
    (hrun : runMachine RefCounts.step refs steps = some final)
    (horderly : Promised RefCounts.step Orderly refs steps) :
    runMachine RefBase.perform refs.view (operations refs steps) = some final.view := by
  induction steps generalizing refs with
  | nil =>
      obtain rfl := Option.some.inj hrun
      rfl
  | cons action actions ih =>
      rw [runMachine_cons, Option.bind_eq_some_iff] at hrun
      obtain ⟨next, hstep, hrest⟩ := hrun
      rw [operations, hstep, runMachine_append, hsound.performs horderly.1 hstep]
      exact ih (hsound.step horderly.1 hstep) hrest (horderly.2 next hstep)

/-- Threads that go on in any order count what they would count one after the other. -/
theorem run_is_atomic {steps : List Step} {final : RefCounts} (hrun : run steps = some final)
    (horderly : Promised step Orderly new steps) :
    runMachine RefBase.perform RefBase.new (operations new steps) = some final.view ∧
      (final.pointer = false → final.calls = 0 →
        final.mStrong = final.view.strongCount ∧ final.mWeak = final.view.mWeak) := by
  refine ⟨Sound.run_performs (.inl .new) hrun horderly, fun hpointer hnone => ?_⟩
  obtain hfresh | hcounted := run_sound hrun horderly
  · cases hfresh with
    | new => cases hpointer
    | weak | count | sub => exact absurd hnone (by simp [making, goOn])
  · rw [hcounted.view_eq, hcounted.strong, hcounted.weak, holders, hnone]
    exact ⟨rfl, rfl⟩

theorem run_is_atomic_latePromotion :
    ∃ final, run latePromotionEnds = some final ∧
      runMachine RefBase.perform RefBase.new
        [.incStrong, .createWeak, .decStrong, .attemptIncStrong, .decWeak] = some final.view ∧
      final.mStrong = final.view.strongCount ∧ final.mWeak = final.view.mWeak := by
  obtain ⟨final, hrun⟩ : ∃ final, run latePromotionEnds = some final :=
    Option.isSome_iff_exists.mp (by decide +kernel)
  have hoperations : operations new latePromotionEnds =
      [.incStrong, .createWeak, .decStrong, .attemptIncStrong, .decWeak] := by
    decide +kernel
  have hrest : (run latePromotionEnds).map (fun refs => decide
      (refs.pointer = false ∧ refs.calls = 0)) = some true := by
    decide +kernel
  rw [hrun] at hrest
  obtain ⟨hpointer, hnone⟩ := of_decide_eq_true (Option.some.inj hrest)
  obtain ⟨hperform, hcounts⟩ := run_is_atomic hrun (by decide +kernel)
  rw [hoperations] at hperform
  exact ⟨final, hrun, hperform, hcounts hpointer hnone⟩

end RefCounts

end McuProxy.System
