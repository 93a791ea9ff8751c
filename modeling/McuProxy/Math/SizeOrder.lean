/-
# Insertion behind the first element that is large enough

A list ordered by a key is searched from the front for the first element whose key
is not smaller than a given one. That element has the smallest key of all that are
large enough. An element inserted behind it, or in front of the whole list when
there is none, leaves the list ordered only if an element of the very same key was
there, or nothing at all.
-/

import Mathlib.Order.Lattice
import Mathlib.Data.List.TakeWhile
import Mathlib.Tactic.Tauto

namespace McuProxy.Math

universe u v

variable {α : Type u}

/-- The list with `new` behind the first element that passes the test, or in front
when none does. -/
def insertBehind (test : α → Bool) (new : α) (list : List α) : List α :=
  match list.dropWhile fun other => !test other with
  | [] => new :: list
  | found :: rest => list.takeWhile (fun other => !test other) ++ found :: new :: rest

theorem insertBehind_of_none {test : α → Bool} (new : α) {list : List α}
    (hnone : ∀ other ∈ list, test other = false) : insertBehind test new list = new :: list := by
  have hdrop : list.dropWhile (fun other => !test other) = [] := by
    rw [List.dropWhile_eq_nil_iff]
    intro other hother
    simp [hnone other hother]
  rw [insertBehind, hdrop]

theorem insertBehind_of_split {test : α → Bool} (new : α) {front back : List α} {found : α}
    (hfront : ∀ other ∈ front, test other = false) (hfound : test found = true) :
    insertBehind test new (front ++ found :: back) = front ++ found :: new :: back := by
  have hpass : ∀ other ∈ front, (!test other) = true := by
    intro other hother
    simp [hfront other hother]
  have hdrop : (front ++ found :: back).dropWhile (fun other => !test other) = found :: back := by
    rw [List.dropWhile_append_of_pos hpass, List.dropWhile_cons_of_neg (by simp [hfound])]
  have htake : (front ++ found :: back).takeWhile (fun other => !test other) = front := by
    rw [List.takeWhile_append_of_pos hpass, List.takeWhile_cons_of_neg (by simp [hfound]),
      List.append_nil]
  rw [insertBehind, hdrop]
  simp only [htake]

/-- A search stops nowhere, or at the first element that passes the test. -/
theorem exists_first_or_none (test : α → Bool) (list : List α) :
    (∀ other ∈ list, test other = false) ∨
      ∃ front found back, list = front ++ found :: back ∧ (∀ other ∈ front, test other = false) ∧
        test found = true := by
  cases hfind : list.find? test with
  | none => exact Or.inl fun other hother => by simpa using List.find?_eq_none.mp hfind other hother
  | some found =>
      obtain ⟨hfound, front, back, rfl, hfront⟩ := List.find?_eq_some_iff_append.mp hfind
      exact Or.inr ⟨front, found, back, rfl, fun other hother => by simpa using hfront other hother,
        hfound⟩

/-- The test matters at the elements of the list only. -/
theorem insertBehind_congr {test test' : α → Bool} (new : α) {list : List α}
    (hsame : ∀ other ∈ list, test other = test' other) :
    insertBehind test new list = insertBehind test' new list := by
  rcases exists_first_or_none test list with hnone | ⟨front, found, back, rfl, hfront, hfound⟩
  · rw [insertBehind_of_none new hnone,
      insertBehind_of_none new fun other hother => hsame other hother ▸ hnone other hother]
  · have hfront' : ∀ other ∈ front, test' other = false := fun other hother =>
      hsame other (List.mem_append_left _ hother) ▸ hfront other hother
    have hfound' : test' found = true := hsame found (by simp) ▸ hfound
    rw [insertBehind_of_split new hfront hfound, insertBehind_of_split new hfront' hfound']

theorem mem_insertBehind {test : α → Bool} {new other : α} {list : List α} :
    other ∈ insertBehind test new list ↔ other = new ∨ other ∈ list := by
  rcases exists_first_or_none test list with hnone | ⟨front, found, back, rfl, hfront, hfound⟩
  · rw [insertBehind_of_none new hnone, List.mem_cons]
  · rw [insertBehind_of_split new hfront hfound]
    simp only [List.mem_append, List.mem_cons]
    tauto

section

variable {κ : Type v} [LinearOrder κ] {key : α → κ}

/-- The list is ordered by the key. -/
def OrderedBy (key : α → κ) (list : List α) : Prop :=
  list.Pairwise fun first second => key first ≤ key second

instance (key : α → κ) (list : List α) : Decidable (OrderedBy key list) :=
  inferInstanceAs (Decidable (list.Pairwise _))

theorem OrderedBy.congr {other : α → κ} {list : List α}
    (hsame : ∀ entry ∈ list, key entry = other entry)
    (hordered : OrderedBy key list) : OrderedBy other list := by
  refine List.Pairwise.imp_of_mem ?_ hordered
  intro first second hfirst hsecond hle
  rwa [← hsame first hfirst, ← hsame second hsecond]

/-- The first element that is large enough is the smallest of those. -/
theorem OrderedBy.first_le {front back : List α} {found : α} {bound : κ}
    (hordered : OrderedBy key (front ++ found :: back))
    (hfront : ∀ other ∈ front, key other < bound) :
    ∀ other ∈ front ++ found :: back, bound ≤ key other → key found ≤ key other := by
  intro other hother hlarge
  rcases List.mem_append.mp hother with hmem | hmem
  · exact absurd hlarge (not_le.mpr (hfront other hmem))
  · rcases List.mem_cons.mp hmem with rfl | hback
    · exact le_rfl
    · exact List.rel_of_pairwise_cons (List.pairwise_append.mp hordered).2.1 hback

/-- When the insertion keeps the order. -/
theorem orderedBy_insertBehind_iff {list : List α} (hordered : OrderedBy key list) (new : α) :
    OrderedBy key (insertBehind (fun other => decide (key new ≤ key other)) new list) ↔
      list = [] ∨ ∃ other ∈ list, key other = key new := by
  rcases exists_first_or_none (fun other => decide (key new ≤ key other)) list with
    hnone | ⟨front, found, back, rfl, hfront, hfound⟩
  · -- All keys are smaller, and `new` goes in front of them.
    have hsmaller : ∀ other ∈ list, key other < key new := fun other hother =>
      not_le.mp (by simpa using hnone other hother)
    rw [insertBehind_of_none new hnone]
    constructor
    · intro hinserted
      left
      rw [List.eq_nil_iff_forall_not_mem]
      intro other hother
      exact not_le.mpr (hsmaller other hother) (List.rel_of_pairwise_cons hinserted hother)
    · rintro (rfl | ⟨other, hother, heq⟩)
      · exact List.pairwise_singleton _ _
      · exact absurd heq (hsmaller other hother).ne
  · have hsmaller : ∀ other ∈ front, key other < key new := fun other hother =>
      not_le.mp (by simpa using hfront other hother)
    have hlarge : key new ≤ key found := by simpa using hfound
    rw [insertBehind_of_split new hfront hfound]
    have hequal : (∃ other ∈ front ++ found :: back, key other = key new) ↔
        key found = key new := by
      constructor
      · rintro ⟨other, hother, heq⟩
        exact le_antisymm ((hordered.first_le hsmaller other hother heq.ge).trans heq.le) hlarge
      · exact fun heq => ⟨found, by simp, heq⟩
    rw [hequal]
    obtain ⟨hfrontOrder, htail, hacross⟩ := List.pairwise_append.mp hordered
    obtain ⟨hback, hbackOrder⟩ := List.pairwise_cons.mp htail
    constructor
    · intro hinserted
      right
      have hpair := (List.pairwise_append.mp hinserted).2.1
      exact le_antisymm (List.rel_of_pairwise_cons hpair List.mem_cons_self) hlarge
    · rintro (hempty | heq)
      · exact absurd hempty (by simp)
      · refine List.pairwise_append.mpr ⟨hfrontOrder, List.pairwise_cons.mpr ⟨?_,
          List.pairwise_cons.mpr ⟨fun other hother => heq ▸ hback other hother, hbackOrder⟩⟩, ?_⟩
        · rw [List.forall_mem_cons]
          exact ⟨heq.le, hback⟩
        · intro first hfirst second hsecond
          rcases List.mem_cons.mp hsecond with rfl | hrest
          · exact hacross first hfirst second List.mem_cons_self
          · rcases List.mem_cons.mp hrest with rfl | hmem
            · exact (hsmaller first hfirst).le
            · exact hacross first hfirst second (List.mem_cons_of_mem _ hmem)

end

end McuProxy.Math
