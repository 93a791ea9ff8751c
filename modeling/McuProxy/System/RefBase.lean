/-
# Reference counts

`RefBase` counts the strong and the weak references to an object, where every strong
reference is a weak one as well. The object is deleted when its last strong
reference is given up, or its last weak reference if it never had a strong one;
`extendObjectLifetime`, which would change this, is not called anywhere.

The strong count of an object that never had a strong reference is
`INITIAL_STRONG_VALUE`. It is kept apart from the counts here, and no count gets as
far as that number. What happens to an object after it was deleted is not part of
this module.
-/

import Mathlib.Data.Option.Basic

namespace McuProxy.System

/-- The counts of an object; `none` is `INITIAL_STRONG_VALUE`. -/
structure RefBase where
  mStrong : Option Nat
  mWeak : Nat
  deriving DecidableEq

namespace RefBase

def new : RefBase := ⟨none, 0⟩

def incWeak (refs : RefBase) : RefBase := { refs with mWeak := refs.mWeak + 1 }

def createWeak (refs : RefBase) : RefBase := refs.incWeak

/-- Whether the object is deleted, and the counts. -/
def decWeak (refs : RefBase) : Bool × RefBase :=
  (refs.mWeak = 1 && refs.mStrong.isNone, { refs with mWeak := refs.mWeak - 1 })

def incStrong (refs : RefBase) : RefBase :=
  { refs.incWeak with mStrong := some (refs.mStrong.getD 0 + 1) }

/-- Whether the object is deleted, and the counts; undefined for an object without
strong references. -/
def decStrong (refs : RefBase) : Option (Bool × RefBase) :=
  match refs.mStrong with
  | some (count + 1) => some (count = 0, ({ refs with mStrong := some count }).decWeak.2)
  | _ => none

/-- An object whose last strong reference was given up is not revived. -/
def attemptIncStrong (refs : RefBase) : Bool × RefBase :=
  if refs.mStrong = some 0 then (false, refs.incWeak.decWeak.2) else (true, refs.incStrong)

/-- The number of strong references. -/
def strongCount (refs : RefBase) : Nat := refs.mStrong.getD 0

@[simp]
theorem strongCount_incStrong (refs : RefBase) :
    refs.incStrong.strongCount = refs.strongCount + 1 := rfl

/-- A strong reference is taken unless the object is being deleted. -/
theorem attemptIncStrong_spec (refs : RefBase) :
    refs.attemptIncStrong.2.strongCount =
      refs.strongCount + if refs.attemptIncStrong.1 then 1 else 0 := by
  unfold attemptIncStrong
  split <;> rfl

/-- The object is deleted with its last strong reference. -/
theorem decStrong_spec {refs next : RefBase} {deleted : Bool}
    (hdec : refs.decStrong = some (deleted, next)) :
    refs.strongCount = next.strongCount + 1 ∧ (deleted = true ↔ next.strongCount = 0) := by
  unfold decStrong at hdec
  split at hdec
  · rename_i count hcount
    obtain ⟨rfl, rfl⟩ := Prod.mk.inj (Option.some.inj hdec)
    refine ⟨?_, decide_eq_true_iff⟩
    rw [strongCount, hcount]
    rfl
  · cases hdec

/-- An object that had a strong reference is not deleted with a weak one, nor is one
that has another weak reference. -/
theorem decWeak_kept {refs : RefBase} (hkept : refs.mStrong ≠ none ∨ refs.mWeak ≠ 1) :
    refs.decWeak.1 = false := by
  rcases hkept with hstrong | hweak
  · simp [decWeak, Option.isNone_eq_false_iff, Option.isSome_iff_ne_none, hstrong]
  · simp [decWeak, hweak]

end RefBase

end McuProxy.System
