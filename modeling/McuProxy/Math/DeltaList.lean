/-
# Lists of differences

A list of labelled deltas stands for the list of its running sums, its timeline:
each entry is as far away as all deltas up to it together. Letting time pass,
placing a new entry and withdrawing an entry touch one or two deltas; on the
timeline they are a truncated shift, a stable insertion and an erasure.
-/

import Mathlib.Algebra.Order.Group.Defs
import Mathlib.Tactic
import McuProxy.Math.StableInsert

namespace McuProxy.Math

universe u v

variable {L : Type u} {T : Type v} [AddCommGroup T]

/-- The running sums of the deltas, from `base` on. -/
def timeline (base : T) : List (L × T) → List (L × T)
  | [] => []
  | (label, delta) :: rest => (label, base + delta) :: timeline (base + delta) rest

/-- Withdraw the first entry with a given label; its delta goes to the entry
behind it. -/
def withdraw (test : L → Bool) : List (L × T) → List (L × T)
  | [] => []
  | [(label, delta)] => if test label then [] else [(label, delta)]
  | (label, delta) :: (behind, delta') :: rest =>
      if test label then (behind, delta' + delta) :: rest
      else (label, delta) :: withdraw test ((behind, delta') :: rest)

/-- A timeline moves with its base. -/
theorem timeline_shift (shift base : T) (list : List (L × T)) :
    timeline (shift + base) list =
      (timeline base list).map fun entry => (entry.1, shift + entry.2) := by
  induction list generalizing base with
  | nil => rfl
  | cons entry rest ih =>
      obtain ⟨label, delta⟩ := entry
      simp only [timeline, List.map_cons, add_assoc]
      rw [ih]

/-- The k-th entry of a timeline is the sum of the first deltas. -/
theorem timeline_getElem? (base : T) (list : List (L × T)) (k : Nat) :
    (timeline base list)[k]? = list[k]?.map fun entry =>
      (entry.1, base + ((list.take (k + 1)).map Prod.snd).sum) := by
  induction list generalizing base k with
  | nil => rfl
  | cons first rest ih =>
      obtain ⟨label, delta⟩ := first
      cases k with
      | zero => simp [timeline]
      | succ k => simp [timeline, ih, add_assoc]

/-- The timeline of a withdrawal. -/
theorem timeline_withdraw (test : L → Bool) (base : T) (list : List (L × T)) :
    timeline base (withdraw test list) =
      (timeline base list).eraseP fun entry => test entry.1 := by
  induction list generalizing base with
  | nil => rfl
  | cons entry rest ih =>
      obtain ⟨label, delta⟩ := entry
      cases rest with
      | nil => cases htest : test label <;> simp [withdraw, timeline, htest]
      | cons next rest =>
          obtain ⟨behind, delta'⟩ := next
          cases htest : test label with
          | true => simp [withdraw, timeline, htest, add_assoc, add_comm delta']
          | false =>
              have hrest := ih (base + delta)
              simp only [timeline] at hrest
              simp [withdraw, timeline, htest, hrest]

variable [LinearOrder T]

/-- Let `elapsed` pass: the leading entries that are due come down to zero, and
the first that is not due yet takes what is left. -/
def advance (elapsed : T) : List (L × T) → List (L × T)
  | [] => []
  | (label, delta) :: rest =>
      if delta ≤ elapsed then (label, 0) :: advance (elapsed - delta) rest
      else (label, delta - elapsed) :: rest

/-- Place an entry `delay` away: behind every entry that is not farther. -/
def place (label : L) (delay : T) : List (L × T) → List (L × T)
  | [] => [(label, delay)]
  | (other, delta) :: rest =>
      if delta ≤ delay then (other, delta) :: place label (delay - delta) rest
      else (label, delay) :: (other, delta - delay) :: rest

variable [IsOrderedAddMonoid T]

/-- With non-negative deltas nothing on the timeline precedes its base. -/
theorem le_of_mem_timeline {base : T} {list : List (L × T)} (hpos : ∀ entry ∈ list, 0 ≤ entry.2)
    {entry : L × T} (hentry : entry ∈ timeline base list) : base ≤ entry.2 := by
  induction list generalizing base with
  | nil => simp [timeline] at hentry
  | cons first rest ih =>
      obtain ⟨label, delta⟩ := first
      have hdelta : base ≤ base + delta := le_add_of_nonneg_right (hpos _ List.mem_cons_self)
      rcases List.mem_cons.mp hentry with rfl | hrest
      · exact hdelta
      · exact hdelta.trans
          (ih (fun other hother => hpos other (List.mem_cons_of_mem _ hother)) hrest)

/-- The timeline after some time has passed: everything is nearer by that much,
and what is due stays at zero. -/
theorem timeline_advance {elapsed : T} (helapsed : 0 ≤ elapsed) {list : List (L × T)}
    (hpos : ∀ entry ∈ list, 0 ≤ entry.2) :
    timeline 0 (advance elapsed list) =
      (timeline 0 list).map fun entry => (entry.1, max 0 (entry.2 - elapsed)) := by
  induction list generalizing elapsed with
  | nil => rfl
  | cons first rest ih =>
      obtain ⟨label, delta⟩ := first
      have hrest : ∀ entry ∈ rest, 0 ≤ entry.2 := fun entry hentry =>
        hpos entry (List.mem_cons_of_mem _ hentry)
      by_cases hdue : delta ≤ elapsed
      · simp only [advance, hdue, if_true, timeline, List.map_cons, zero_add]
        have hzero : max 0 (delta - elapsed) = 0 := max_eq_left (sub_nonpos.mpr hdue)
        rw [hzero, ih (sub_nonneg.mpr hdue) hrest]
        have hshift := timeline_shift delta 0 rest
        rw [add_zero] at hshift
        rw [hshift, List.map_map]
        congr 1
        apply List.map_congr_left
        intro entry _
        simp only [Function.comp_apply]
        rw [show entry.2 - (elapsed - delta) = delta + entry.2 - elapsed by abel]
      · simp only [advance, hdue, if_false, timeline, List.map_cons, zero_add]
        have hlater : elapsed ≤ delta := (not_le.mp hdue).le
        rw [max_eq_right (sub_nonneg.mpr hlater)]
        have hshift := timeline_shift (-elapsed) delta rest
        rw [neg_add_eq_sub] at hshift
        rw [hshift]
        congr 1
        apply List.map_congr_left
        intro entry hentry
        have hle : elapsed ≤ entry.2 := hlater.trans (le_of_mem_timeline hrest hentry)
        rw [max_eq_right (sub_nonneg.mpr hle), neg_add_eq_sub]

/-- The timeline after an entry has been placed: it is inserted where it is due,
behind the entries due at the same moment. -/
theorem timeline_place (label : L) (delay base : T) (list : List (L × T)) :
    timeline base (place label delay list) =
      insertBefore (fun entry => decide (base + delay < entry.2)) (label, base + delay)
        (timeline base list) := by
  induction list generalizing delay base with
  | nil => rfl
  | cons first rest ih =>
      obtain ⟨other, delta⟩ := first
      by_cases hbefore : delta ≤ delay
      · have hnot : ¬ base + delay < base + delta := by simpa using hbefore
        simp only [place, hbefore, if_true, timeline, insertBefore, hnot, decide_false,
          Bool.false_eq_true, if_false]
        rw [ih, show base + delta + (delay - delta) = base + delay by abel]
      · have hlt : base + delay < base + delta := by simpa using hbefore
        simp only [place, hbefore, if_false, timeline, insertBefore, hlt, decide_true, if_true]
        rw [show base + delay + (delta - delay) = base + delta by abel]

end McuProxy.Math
