/-
# References without a lock

The counts of an object are changed by single atomic instructions, and between two of
them other threads go on. A call is modelled as a place in its code, and one step takes
it from one atomic instruction, or one use of the object, to the next. Calls at the
same place are alike, so the calls under way are a multiset. A call that gives a
reference up holds it. To copy a reference, or to promote it, is only to be lent it; one
reference may be lent to many calls, and it is not given up before they have returned.

What was deleted is not forgotten. A step that reads or writes a deleted object, or the
counts of one, is taken and marks the state as wild; that no run gets there is what has
to be proved.

An object begins with the pointer of its creator, which no count knows. The first strong
reference is made of this pointer.
-/

import Mathlib.Algebra.BigOperators.Group.Multiset.Basic
import McuProxy.Math.Machine

namespace McuProxy.System

open McuProxy.Math

/-- `INITIAL_STRONG_VALUE`. -/
def initialStrongValue : Int := 2 ^ 28

/-- A call under way, named by what it does next. `incStrong` copies a strong reference, or
takes the pointer of the creator; `attempt` is `attemptIncStrong`. `decWeak` gives a weak
reference up, or is the end of `decStrong`. -/
inductive Call
  | incStrongWeak (copy : Bool)
  | incStrongCount (copy : Bool)
  | incStrongSub (copy : Bool)
  | incStrongFirst (copy : Bool)
  | decStrongCount
  | decStrongLast
  | decStrongDelete
  | decWeakCount (given : Bool)
  | decWeakLast
  | attemptWeak
  | attemptRead
  | attemptTest (curCount : Int)
  | attemptCount
  | attemptSurplus
  | attemptSub
  | attemptFirst
  | attemptFail
  deriving DecidableEq, Repr

/-- A call that was lent a strong reference. -/
@[simp]
def Call.copying : Call → Nat
  | incStrongWeak copy | incStrongCount copy | incStrongSub copy | incStrongFirst copy => copy.toNat
  | _ => 0

/-- A call that was lent a weak reference. -/
@[simp]
def Call.promoting : Call → Nat
  | attemptWeak | attemptRead | attemptTest _ | attemptCount | attemptSurplus | attemptSub
  | attemptFirst | attemptFail => 1
  | _ => 0

/-- What a weak reference is made of. -/
inductive Holding
  | pointer
  | strong
  | weak
  deriving DecidableEq, Repr

/-- An object and its `weakref_impl`, with the references in anybody's hands. -/
structure RefCounts where
  mStrong : Int
  mWeak : Int
  base : Bool
  impl : Bool
  pointer : Bool
  strong : Nat
  weak : Nat
  calls : Multiset Call
  firstRefs : Nat
  lastRefs : Nat
  wild : Bool
  deriving DecidableEq

namespace RefCounts

/-- `RefBase::RefBase`. -/
def new : RefCounts where
  mStrong := initialStrongValue
  mWeak := 0
  base := true
  impl := true
  pointer := true
  strong := 0
  weak := 0
  calls := 0
  firstRefs := 0
  lastRefs := 0
  wild := false

/-- The object is used. -/
def useBase (refs : RefCounts) : RefCounts := { refs with wild := refs.wild || !refs.base }

/-- The counts are used. -/
def useImpl (refs : RefCounts) : RefCounts := { refs with wild := refs.wild || !refs.impl }

/-- A call goes on. -/
def goOn (refs : RefCounts) (call : Call) : RefCounts := { refs with calls := call ::ₘ refs.calls }

/-- `delete` of the object, with its destructor. -/
def deleteBase (refs : RefCounts) : RefCounts :=
  let refs := refs.useBase.useImpl
  { refs with
    base := false
    impl := refs.impl && refs.mStrong != initialStrongValue }

/-- `incStrong` returns, or `attemptIncStrong` returns true: there is one strong reference
more. -/
def returnStrong (refs : RefCounts) : RefCounts := { refs with strong := refs.strong + 1 }

/-- One step of a call that was taken out of the calls under way. -/
def advance (refs : RefCounts) : Call → RefCounts
  | .incStrongWeak copy =>
      { refs.useBase.useImpl with mWeak := refs.mWeak + 1 }.goOn (.incStrongCount copy)
  | .incStrongCount copy =>
      let next := { refs.useImpl with mStrong := refs.mStrong + 1 }
      if refs.mStrong = initialStrongValue then next.goOn (.incStrongSub copy)
      else next.returnStrong
  | .incStrongSub copy =>
      { refs.useImpl with mStrong := refs.mStrong - initialStrongValue }.goOn (.incStrongFirst copy)
  | .incStrongFirst _ =>
      { refs.useImpl.useBase with firstRefs := refs.firstRefs + 1 }.returnStrong
  | .decStrongCount =>
      let next := { refs.useBase.useImpl with mStrong := refs.mStrong - 1 }
      next.goOn (if refs.mStrong = 1 then .decStrongLast else .decWeakCount false)
  | .decStrongLast =>
      { refs.useImpl.useBase with lastRefs := refs.lastRefs + 1 }.goOn .decStrongDelete
  | .decStrongDelete => refs.deleteBase.goOn (.decWeakCount false)
  | .decWeakCount _ =>
      let next := { refs.useImpl with mWeak := refs.mWeak - 1 }
      if refs.mWeak = 1 then next.goOn .decWeakLast else next
  | .decWeakLast =>
      let next := refs.useImpl
      if refs.mStrong = initialStrongValue then next.deleteBase else { next with impl := false }
  | .attemptWeak => { refs.useImpl with mWeak := refs.mWeak + 1 }.goOn .attemptRead
  | .attemptRead => refs.useImpl.goOn (.attemptTest refs.mStrong)
  | .attemptTest curCount =>
      if 0 < curCount ∧ curCount ≠ initialStrongValue then
        if refs.mStrong = curCount then
          { refs.useImpl with mStrong := curCount + 1 }.returnStrong
        else refs.useImpl.goOn .attemptRead
      else if curCount = initialStrongValue then refs.useImpl.goOn .attemptCount
      else refs.useImpl.goOn .attemptFail
  | .attemptCount =>
      let next := { refs.useImpl with mStrong := refs.mStrong + 1 }
      if refs.mStrong = initialStrongValue then next.goOn .attemptSub
      else if 0 < refs.mStrong ∧ refs.mStrong < initialStrongValue then next.goOn .attemptSurplus
      else next.returnStrong
  | .attemptSurplus =>
      { refs.useImpl.useBase with lastRefs := refs.lastRefs + 1 }.returnStrong
  | .attemptSub =>
      { refs.useImpl with mStrong := refs.mStrong - initialStrongValue }.goOn .attemptFirst
  | .attemptFirst =>
      { refs.useImpl.useBase with firstRefs := refs.firstRefs + 1 }.returnStrong
  | .attemptFail =>
      let next := { refs.useImpl with mWeak := refs.mWeak - 1 }
      if refs.mWeak = 1 then next.goOn .decWeakLast else next

/-- A step of some thread: a call begins, or goes on. -/
inductive Step
  | incStrong (copy : Bool)
  | decStrong
  | createWeak (holding : Holding)
  | decWeak
  | attemptIncStrong
  | advance (call : Call)
  deriving DecidableEq

/-- The sum of a number over the calls under way. -/
def weigh (weight : Call → Nat) (calls : Multiset Call) : Nat := (calls.map weight).sum

@[simp]
theorem weigh_zero (weight : Call → Nat) : weigh weight 0 = 0 := rfl

@[simp]
theorem weigh_cons (weight : Call → Nat) (call : Call) (calls : Multiset Call) :
    weigh weight (call ::ₘ calls) = weight call + weigh weight calls := by
  rw [weigh, Multiset.map_cons, Multiset.sum_cons, weigh]

@[simp]
theorem weigh_singleton (weight : Call → Nat) (call : Call) : weigh weight {call} = weight call :=
  weigh_cons weight call 0

theorem weigh_mono {light heavy : Call → Nat} (hle : ∀ call, light call ≤ heavy call)
    (calls : Multiset Call) : weigh light calls ≤ weigh heavy calls := by
  induction calls using Multiset.induction_on with
  | empty => exact Nat.le_refl 0
  | cons call calls ih =>
      rw [weigh_cons, weigh_cons]
      exact Nat.add_le_add (hle call) ih

/-- Whoever makes a weak reference holds something to make it of. -/
def holds (refs : RefCounts) : Holding → Bool
  | .pointer => refs.pointer
  | .strong => 0 < refs.strong
  | .weak => 0 < refs.weak

/-- The step function. As long as a call is lent one of the references in hand, the last of
them is not given up. -/
def step (refs : RefCounts) : Step → Option RefCounts
  | .incStrong false =>
      if refs.pointer then some ({ refs with pointer := false }.goOn (.incStrongWeak false))
      else none
  | .incStrong true => if 0 < refs.strong then some (refs.goOn (.incStrongWeak true)) else none
  | .decStrong =>
      if min 1 (weigh Call.copying refs.calls) < refs.strong then
        some ({ refs with strong := refs.strong - 1 }.goOn .decStrongCount)
      else none
  | .createWeak holding =>
      if refs.holds holding then
        let next := if holding = .weak then refs.useImpl else refs.useBase.useImpl
        some { next with
          mWeak := refs.mWeak + 1
          weak := refs.weak + 1 }
      else none
  | .decWeak =>
      if min 1 (weigh Call.promoting refs.calls) < refs.weak then
        some ({ refs with weak := refs.weak - 1 }.goOn (.decWeakCount true))
      else none
  | .attemptIncStrong => if 0 < refs.weak then some (refs.goOn .attemptWeak) else none
  | .advance call =>
      if call ∈ refs.calls then some ({ refs with calls := refs.calls.erase call }.advance call)
      else none

/-- A run from the construction of the object. -/
def run (steps : List Step) : Option RefCounts := runMachine step new steps

end RefCounts

namespace Call

/-- The strong references that are counted for a call. -/
@[simp]
def strong : Call → Nat
  | incStrongWeak copy | incStrongCount copy => (!copy).toNat
  | incStrongFirst _ | decStrongCount => 1
  | _ => 0

/-- The weak references that are counted for a call. -/
@[simp]
def weak : Call → Nat
  | incStrongWeak _ | attemptWeak | decWeakLast => 0
  | _ => 1

/-- A call that is to notify the object of its first reference. -/
@[simp]
def first : Call → Nat
  | incStrongFirst _ => 1
  | _ => 0

/-- A call that is to notify the object of its last reference. -/
@[simp]
def last : Call → Nat
  | decStrongLast => 1
  | _ => 0

/-- A call that is to delete the object. -/
@[simp]
def ending : Call → Nat
  | decStrongLast | decStrongDelete => 1
  | _ => 0

/-- A call that is to delete the counts. -/
@[simp]
def freeing : Call → Nat
  | decWeakLast => 1
  | _ => 0

/-- A call that was refused a strong reference. -/
@[simp]
def failing : Call → Nat
  | attemptTest curCount => if curCount ≤ 0 then 1 else 0
  | attemptFail => 1
  | _ => 0

/-- A call that met, or is to meet, the initial value. -/
@[simp]
def initial : Call → Nat
  | incStrongWeak copy | incStrongCount copy => (!copy).toNat
  | incStrongFirst copy => copy.toNat
  | attemptTest curCount => if curCount = initialStrongValue then 1 else 0
  | incStrongSub _ | attemptCount | attemptSurplus | attemptSub | attemptFirst => 1
  | _ => 0

/-- The first reference is made known before it is given up. -/
theorem first_le_strong (call : Call) : call.first ≤ call.strong := by
  cases call <;> simp

end Call

namespace RefCounts

/-- The strong references that the count stands for. -/
def references (refs : RefCounts) : Nat := refs.strong + weigh Call.strong refs.calls

/-- The weak references that the count stands for. -/
def holders (refs : RefCounts) : Nat := refs.strong + refs.weak + weigh Call.weak refs.calls

/-- No count wraps, and the creator of the object makes a strong reference first. -/
def Orderly (refs : RefCounts) (action : Step) : Prop :=
  action ≠ .createWeak .pointer ∧ (refs.references : Int) < initialStrongValue ∧
    (refs.holders : Int) + 1 < 2 ^ 31

instance (refs : RefCounts) (action : Step) : Decidable (refs.Orderly action) :=
  inferInstanceAs (Decidable (_ ∧ _ ∧ _))

/-- An object whose first strong reference is being made. -/
def making (mStrong mWeak : Int) (call : Call) : RefCounts :=
  ({ new with
    mStrong := mStrong
    mWeak := mWeak
    pointer := false }).goOn call

/-- An object up to its first strong reference. -/
inductive Fresh : RefCounts → Prop
  | new : Fresh new
  | weak : Fresh (making initialStrongValue 0 (.incStrongWeak false))
  | count : Fresh (making initialStrongValue 1 (.incStrongCount false))
  | sub : Fresh (making (initialStrongValue + 1) 1 (.incStrongSub false))

/-- An object that had a strong reference. -/
structure Counted (refs : RefCounts) : Prop where
  pointer : refs.pointer = false
  initial : weigh Call.initial refs.calls = 0
  strong : refs.mStrong = refs.references
  weak : refs.mWeak = refs.holders
  first : refs.firstRefs + weigh Call.first refs.calls = 1
  last : refs.lastRefs + weigh Call.last refs.calls + min 1 refs.references = 1
  base : refs.base.toNat = min 1 (refs.references + weigh Call.ending refs.calls)
  ending : 0 < weigh Call.ending refs.calls →
    refs.references = 0 ∧ weigh Call.ending refs.calls = 1
  impl : refs.impl.toNat = min 1 (refs.holders + weigh Call.freeing refs.calls)
  freeing : 0 < weigh Call.freeing refs.calls →
    refs.holders = 0 ∧ weigh Call.freeing refs.calls = 1
  failing : 0 < weigh Call.failing refs.calls → refs.references = 0
  lentStrong : 0 < weigh Call.copying refs.calls → 0 < refs.strong
  lentWeak : 0 < weigh Call.promoting refs.calls → 0 < refs.weak
  wild : refs.wild = false

section Steps

variable {refs next : RefCounts} {call : Call}

/-- As long as there is a strong reference, there is an object. -/
theorem Counted.base_of_strong (hcounted : Counted refs) (hstrong : 0 < refs.strong) :
    refs.base = true := by
  have hbase := hcounted.base
  rw [references] at hbase
  cases halive : refs.base with
  | false =>
      rw [halive, Bool.toNat_false] at hbase
      omega
  | true => rfl

/-- As long as there is a reference, there are counts. -/
theorem Counted.impl_of_reference (hcounted : Counted refs)
    (hreference : 0 < refs.strong + refs.weak) : refs.impl = true := by
  have himpl := hcounted.impl
  rw [holders] at himpl
  cases hkept : refs.impl with
  | false =>
      rw [hkept, Bool.toNat_false] at himpl
      omega
  | true => rfl

theorem Counted.base_alive (hcounted : Counted (refs.goOn call))
    (hcall : 0 < call.strong + call.ending + call.copying) : refs.base = true := by
  have hbase := hcounted.base
  have hlent := hcounted.lentStrong
  simp only [goOn, references, weigh_cons] at hbase hlent
  cases halive : refs.base with
  | false =>
      rw [halive, Bool.toNat_false] at hbase
      omega
  | true => rfl

theorem Counted.impl_alive (hcounted : Counted (refs.goOn call))
    (hcall : 0 < call.weak + call.freeing + call.copying + call.promoting) :
    refs.impl = true := by
  have himpl := hcounted.impl
  have hcopying := hcounted.lentStrong
  have hpromoting := hcounted.lentWeak
  simp only [goOn, holders, weigh_cons] at himpl hcopying hpromoting
  cases hkept : refs.impl with
  | false =>
      rw [hkept, Bool.toNat_false] at himpl
      omega
  | true => rfl

theorem Counted.not_initial (hcounted : Counted refs)
    (hsmall : (refs.references : Int) < initialStrongValue) :
    refs.mStrong ≠ initialStrongValue := by
  rw [hcounted.strong]
  exact ne_of_lt hsmall

/-- A step of `incStrong`. Only the maker of the first reference met the initial value. -/
theorem Counted.advance_incStrong (copy : Bool) (hcounted : Counted (refs.goOn call))
    (hlarge : refs.mStrong ≠ initialStrongValue)
    (hcall : call = .incStrongWeak copy ∨ call = .incStrongCount copy ∨
      call = .incStrongSub copy ∨ call = .incStrongFirst copy) : Counted (refs.advance call) := by
  have halive := hcounted.base_alive
  have hkept := hcounted.impl_alive
  obtain ⟨hpointer, hinitial, hstrong, hweak, hfirst, hlast, hbase, hending, himpl, hfreeing,
    hfailing, hcopying, hpromoting, hwild⟩ := hcounted
  rcases hcall with rfl | rfl | rfl | rfl <;> cases copy
  all_goals
    simp [goOn, references, holders] at *
  all_goals
    simp [RefCounts.advance, returnStrong, goOn, useBase, useImpl, halive, hkept, hwild, hlarge]
    constructor <;> simp [references, holders, hinitial] <;> first | assumption | omega

/-- A step of `decStrong` or `decWeak`. -/
theorem Counted.advance_decStrong (given : Bool) (hcounted : Counted (refs.goOn call))
    (hlarge : refs.mStrong ≠ initialStrongValue)
    (hcall : call = .decStrongCount ∨ call = .decStrongLast ∨ call = .decStrongDelete ∨
      call = .decWeakCount given ∨ call = .decWeakLast) : Counted (refs.advance call) := by
  have halive := hcounted.base_alive
  have hkept := hcounted.impl_alive
  obtain ⟨hpointer, hinitial, hstrong, hweak, hfirst, hlast, hbase, hending, himpl, hfreeing,
    hfailing, hcopying, hpromoting, hwild⟩ := hcounted
  rcases hcall with rfl | rfl | rfl | rfl | rfl
  all_goals
    simp [goOn, references, holders] at *
  all_goals
    simp [RefCounts.advance, deleteBase, goOn, useBase, useImpl, halive, hkept, hwild, hlarge,
      bne_iff_ne.mpr hlarge]
  -- The count was that of the last reference, or it was not.
  case inl | inr.inr.inr.inl =>
    split <;> constructor <;> simp [references, holders, hinitial] <;> first | assumption | omega
  all_goals
    constructor <;> simp [references, holders, hinitial] <;> first | assumption | omega

/-- A step of `attemptIncStrong` up to its comparison, and its end without success. -/
theorem Counted.advance_attempt (hcounted : Counted (refs.goOn call))
    (hlarge : refs.mStrong ≠ initialStrongValue)
    (hcall : call = .attemptWeak ∨ call = .attemptRead ∨ call = .attemptFail) :
    Counted (refs.advance call) := by
  have hkept := hcounted.impl_alive
  obtain ⟨hpointer, hinitial, hstrong, hweak, hfirst, hlast, hbase, hending, himpl, hfreeing,
    hfailing, hcopying, hpromoting, hwild⟩ := hcounted
  rcases hcall with rfl | rfl | rfl
  all_goals
    simp [goOn, references, holders] at *
  all_goals
    simp [RefCounts.advance, goOn, useImpl, hkept, hwild]
  case inl => constructor <;> simp [references, holders, hinitial] <;> first | assumption | omega
  case inr.inl =>
    by_cases hnone : refs.mStrong ≤ 0
    all_goals constructor <;> simp [references, holders, hinitial, hlarge, hnone] <;>
      first | assumption | omega
  case inr.inr =>
    split <;> constructor <;> simp [references, holders, hinitial] <;> first | assumption | omega

/-- The count that was read is the one that is compared. -/
theorem Counted.advance_attemptTest {curCount : Int}
    (hcounted : Counted (refs.goOn (.attemptTest curCount))) :
    Counted (refs.advance (.attemptTest curCount)) := by
  have hkept := hcounted.impl_alive
  obtain ⟨hpointer, hinitial, hstrong, hweak, hfirst, hlast, hbase, hending, himpl, hfreeing,
    hfailing, hcopying, hpromoting, hwild⟩ := hcounted
  simp [goOn, references, holders] at *
  simp [RefCounts.advance, returnStrong, goOn, useImpl, hkept, hwild, hinitial]
  by_cases hnone : curCount ≤ 0
  · simp only [hnone, not_lt.mpr hnone, if_true, if_false] at hfailing ⊢
    constructor <;> simp [references, holders, hinitial] <;> first | assumption | omega
  · simp only [hnone, not_le.mp hnone, if_true, if_false] at hfailing ⊢
    split <;> constructor <;> simp [references, holders, hinitial] <;> first | assumption | omega

/-- What a call does to the counts, the references in hand and the calls under way balances. -/
theorem Counted.advance (hcounted : Counted (refs.goOn call))
    (hsmall : ((refs.goOn call).references : Int) < initialStrongValue) :
    Counted (refs.advance call) := by
  have hlarge := hcounted.not_initial hsmall
  have hinitial := hcounted.initial
  cases call with
  | incStrongWeak copy | incStrongCount copy | incStrongSub copy | incStrongFirst copy =>
      exact hcounted.advance_incStrong copy hlarge (by simp)
  | decStrongCount | decStrongLast | decStrongDelete | decWeakLast =>
      exact hcounted.advance_decStrong false hlarge (by simp)
  | decWeakCount given => exact hcounted.advance_decStrong given hlarge (by simp)
  | attemptWeak | attemptRead | attemptFail => exact hcounted.advance_attempt hlarge (by simp)
  | attemptTest curCount => exact hcounted.advance_attemptTest
  | attemptCount | attemptSurplus | attemptSub | attemptFirst =>
      -- These calls met the initial value.
      simp [goOn] at hinitial

/-- The calls that begin, and a weak reference that is made of another one. -/
theorem Counted.begin (hcounted : Counted refs) {action : Step} (horderly : refs.Orderly action)
    (hstep : refs.step action = some next)
    (hbegin : ∀ call, action ≠ .advance call) : Counted next := by
  have halive := hcounted.base_of_strong
  have hkept := hcounted.impl_of_reference
  obtain ⟨hpointer, hinitial, hstrong, hweak, hfirst, hlast, hbase, hending, himpl, hfreeing,
    hfailing, hcopying, hpromoting, hwild⟩ := hcounted
  simp only [references, holders] at hstrong hweak hlast hbase hending himpl hfreeing hfailing
  cases action with
  | advance call => exact absurd rfl (hbegin call)
  | incStrong copy =>
      cases copy with
      | false => simp [RefCounts.step, hpointer] at hstep
      | true =>
          simp [RefCounts.step] at hstep
          obtain ⟨hheld, rfl⟩ := hstep
          constructor <;> simp [goOn, references, holders, hinitial] <;> first | assumption | omega
  | decStrong | decWeak | attemptIncStrong =>
      simp [RefCounts.step] at hstep
      obtain ⟨hheld, rfl⟩ := hstep
      constructor <;> simp [goOn, references, holders, hinitial] <;> first | assumption | omega
  | createWeak holding =>
      have hheld : refs.holds holding = true := by
        simp only [RefCounts.step] at hstep
        split at hstep
        · assumption
        · cases hstep
      cases holding with
      | pointer => exact absurd rfl horderly.1
      | strong =>
          simp [RefCounts.step, hheld] at hstep
          subst hstep
          simp [holds] at hheld
          simp [useBase, useImpl, halive hheld, hkept (Nat.lt_add_right _ hheld), hwild]
          constructor <;> simp [references, holders, hinitial] <;> first | assumption | omega
      | weak =>
          simp [RefCounts.step, hheld] at hstep
          subst hstep
          simp [holds] at hheld
          simp [useImpl, hkept (Nat.lt_add_left _ hheld), hwild]
          constructor <;> simp [references, holders, hinitial] <;> first | assumption | omega

theorem making_advance {mStrong mWeak : Int} {call other : Call}
    (hstep : (making mStrong mWeak call).step (.advance other) = some next) :
    other = call ∧ next =
      ({ RefCounts.new with
        mStrong := mStrong, mWeak := mWeak, pointer := false }).advance call := by
  simp only [RefCounts.step] at hstep
  split at hstep
  case isFalse => cases hstep
  case isTrue hcall =>
    obtain rfl := Multiset.mem_singleton.mp hcall
    obtain rfl := Option.some.inj hstep
    exact ⟨rfl, by simp [making, goOn, RefCounts.new]⟩

/-- Up to the first strong reference only its maker goes on. -/
theorem Fresh.step_cases (hfresh : Fresh refs) {action : Step} (horderly : refs.Orderly action)
    (hstep : refs.step action = some next) :
    (refs = RefCounts.new ∧ action = .incStrong false ∧
      next = making initialStrongValue 0 (.incStrongWeak false)) ∨
    (refs = making initialStrongValue 0 (.incStrongWeak false) ∧
      action = .advance (.incStrongWeak false) ∧
      next = making initialStrongValue 1 (.incStrongCount false)) ∨
    (refs = making initialStrongValue 1 (.incStrongCount false) ∧
      action = .advance (.incStrongCount false) ∧
      next = making (initialStrongValue + 1) 1 (.incStrongSub false)) ∨
    (refs = making (initialStrongValue + 1) 1 (.incStrongSub false) ∧
      action = .advance (.incStrongSub false) ∧ next = making 1 1 (.incStrongFirst false)) := by
  cases action with
  | createWeak holding =>
      cases holding with
      | pointer => exact absurd rfl horderly.1
      | strong | weak => cases hfresh <;> cases hstep
  | decStrong | decWeak | attemptIncStrong => cases hfresh <;> cases hstep
  | incStrong copy =>
      cases copy with
      | true => cases hfresh <;> cases hstep
      | false =>
          cases hfresh with
          | new => exact .inl ⟨rfl, rfl, (Option.some.inj hstep).symm⟩
          | weak | count | sub => cases hstep
  | advance call =>
      cases hfresh with
      | new => simp [RefCounts.step, RefCounts.new] at hstep
      | weak =>
          obtain ⟨rfl, rfl⟩ := making_advance hstep
          exact .inr (.inl ⟨rfl, rfl, rfl⟩)
      | count =>
          obtain ⟨rfl, rfl⟩ := making_advance hstep
          exact .inr (.inr (.inl ⟨rfl, rfl, rfl⟩))
      | sub =>
          obtain ⟨rfl, rfl⟩ := making_advance hstep
          exact .inr (.inr (.inr ⟨rfl, rfl, rfl⟩))

theorem Fresh.step (hfresh : Fresh refs) {action : Step} (horderly : refs.Orderly action)
    (hstep : refs.step action = some next) : Fresh next ∨ Counted next := by
  obtain ⟨-, -, rfl⟩ | ⟨-, -, rfl⟩ | ⟨-, -, rfl⟩ | ⟨-, -, rfl⟩ := hfresh.step_cases horderly hstep
  · exact .inl .weak
  · exact .inl .count
  · exact .inl .sub
  · right
    constructor <;> simp [making, goOn, RefCounts.new, references, holders]

end Steps

/-- What holds in every state of an orderly run. -/
def Sound (refs : RefCounts) : Prop := Fresh refs ∨ Counted refs

/-- A step of a call takes it out of the calls under way first. -/
theorem advance_taken {refs next : RefCounts} {call : Call}
    (hstep : refs.step (.advance call) = some next) :
    ∃ taken : RefCounts, refs = taken.goOn call ∧ next = taken.advance call := by
  simp only [RefCounts.step] at hstep
  split at hstep
  case isFalse => cases hstep
  case isTrue hcall =>
    refine ⟨{ refs with calls := refs.calls.erase call }, ?_, (Option.some.inj hstep).symm⟩
    rw [goOn, Multiset.cons_erase hcall]

theorem Sound.step {refs next : RefCounts} {action : Step} (hsound : Sound refs)
    (horderly : refs.Orderly action) (hstep : refs.step action = some next) : Sound next := by
  obtain hfresh | hcounted := hsound
  · exact hfresh.step horderly hstep
  · right
    by_cases hbegin : ∃ call, action = .advance call
    · obtain ⟨call, rfl⟩ := hbegin
      obtain ⟨taken, rfl, rfl⟩ := advance_taken hstep
      exact hcounted.advance horderly.2.1
    · exact hcounted.begin horderly hstep (not_exists.mp hbegin)

theorem run_sound {steps : List Step} {final : RefCounts} (hrun : run steps = some final)
    (horderly : Promised step Orderly new steps) : Sound final :=
  runMachine_keeps Sound (fun _ _ _ hsound hpromise hstep => hsound.step hpromise hstep)
    (.inl .new) horderly hrun

/-- Whatever the order in which the threads go on, a reference is to something that is
there, and a promotion that fails came too late. -/
theorem references_are_alive {steps : List Step} {final : RefCounts}
    (hrun : run steps = some final) (horderly : Promised step Orderly new steps) :
    final.wild = false ∧ (0 < final.strong → final.base = true) ∧
      (0 < final.strong + final.weak → final.impl = true) ∧
      (.attemptFail ∈ final.calls → final.references = 0) := by
  obtain hfresh | hcounted := run_sound hrun horderly
  · cases hfresh <;> simp [making, new, goOn]
  · refine ⟨hcounted.wild, hcounted.base_of_strong, hcounted.impl_of_reference, fun hfail => ?_⟩
    obtain ⟨calls, hcalls⟩ := Multiset.exists_cons_of_mem hfail
    apply hcounted.failing
    rw [hcalls, weigh_cons]
    exact Nat.add_pos_left Nat.one_pos _

/-- A weak reference is promoted while the last strong reference is given up. -/
def latePromotion : List Step :=
  [.incStrong false, .advance (.incStrongWeak false), .advance (.incStrongCount false),
    .advance (.incStrongSub false), .advance (.incStrongFirst false), .createWeak .strong,
    .attemptIncStrong, .advance .attemptWeak, .advance .attemptRead, .decStrong,
    .advance .decStrongCount, .advance (.attemptTest 1), .advance .decStrongLast,
    .advance .attemptRead, .advance .decStrongDelete, .advance (.attemptTest 0)]

theorem references_are_alive_latePromotion :
    ∃ final, run latePromotion = some final ∧ .attemptFail ∈ final.calls ∧ final.wild = false := by
  obtain ⟨final, hrun⟩ : ∃ final, run latePromotion = some final :=
    Option.isSome_iff_exists.mp (by decide +kernel)
  have hfail : (run latePromotion).map (fun refs => decide (.attemptFail ∈ refs.calls)) =
    some true := by
    decide +kernel
  rw [hrun] at hfail
  exact ⟨final, hrun, of_decide_eq_true (Option.some.inj hfail),
    (references_are_alive hrun (by decide +kernel)).1⟩

/-- A weak reference that is made of the pointer may be promoted when the object is gone:
`attemptIncStrong` reads the initial value, and the only strong reference comes and goes. -/
example :
    (run [.createWeak .pointer, .attemptIncStrong, .advance .attemptWeak, .advance .attemptRead,
      .incStrong false, .advance (.incStrongWeak false), .advance (.incStrongCount false),
      .advance (.incStrongSub false), .advance (.incStrongFirst false), .decStrong,
      .advance .decStrongCount, .advance .decStrongLast, .advance .decStrongDelete,
      .advance (.decWeakCount false), .advance (.attemptTest initialStrongValue),
      .advance .attemptCount]).map (fun refs => (refs.strong, refs.base)) = some (1, false) := by
  decide +kernel

/-- The object is told of its first and its last strong reference once and in this order,
and nothing of it is left behind. -/
theorem object_ends_once {steps : List Step} {final : RefCounts}
    (hrun : run steps = some final) (horderly : Promised step Orderly new steps) :
    final.lastRefs ≤ final.firstRefs ∧ final.firstRefs ≤ 1 ∧
      (final.pointer = false ∧ final.strong = 0 ∧ final.weak = 0 ∧ final.calls = 0 →
        final.base = false ∧ final.impl = false ∧ final.firstRefs = 1 ∧ final.lastRefs = 1) := by
  obtain hfresh | hcounted := run_sound hrun horderly
  · cases hfresh <;> simp [making, new, goOn]
  · have hfirst := hcounted.first
    have hlast := hcounted.last
    have hcalls := weigh_mono Call.first_le_strong final.calls
    refine ⟨?_, by omega, ?_⟩
    · rw [references] at hlast
      omega
    · rintro ⟨-, hstrong, hweak, hnone⟩
      have hbase := hcounted.base
      have himpl := hcounted.impl
      simp [references, holders, hstrong, hweak, hnone] at hbase himpl hlast hfirst
      exact ⟨hbase, himpl, hfirst, hlast⟩

/-- The calls return, and the weak reference is given up. -/
def latePromotionEnds : List Step :=
  latePromotion ++ [.advance (.decWeakCount false), .advance .attemptFail, .decWeak,
    .advance (.decWeakCount true), .advance .decWeakLast]

theorem object_ends_once_latePromotion :
    ∃ final, run latePromotionEnds = some final ∧
      final.base = false ∧ final.impl = false ∧ final.firstRefs = 1 ∧ final.lastRefs = 1 := by
  obtain ⟨final, hrun⟩ : ∃ final, run latePromotionEnds = some final :=
    Option.isSome_iff_exists.mp (by decide +kernel)
  have hrest : (run latePromotionEnds).map (fun refs => decide
      (refs.pointer = false ∧ refs.strong = 0 ∧ refs.weak = 0 ∧ refs.calls = 0)) = some true := by
    decide +kernel
  rw [hrun] at hrest
  exact ⟨final, hrun, (object_ends_once hrun (by decide +kernel)).2.2
    (of_decide_eq_true (Option.some.inj hrest))⟩

end RefCounts

end McuProxy.System
