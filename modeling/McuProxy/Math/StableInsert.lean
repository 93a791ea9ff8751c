/-
# Stable insertion into an ordered list

Both event queues and the conference list insert a new element before the first
element that has to come after it and leave the rest alone. The order is
whatever relation the caller keeps the list pairwise related by; it may mention
more than the test of the loop, in particular the order of insertion, which is
what makes an insertion stable.
-/

import Mathlib.Data.List.Perm.Basic
import Mathlib.Order.Lattice

namespace McuProxy.Math

universe u v w

variable {α : Type u} {β : Type v}

/-- Insert `x` before the first element for which `behind` holds, or at the
end. -/
def insertBefore (behind : α → Bool) (x : α) : List α → List α
  | [] => [x]
  | y :: rest => if behind y then x :: y :: rest else y :: insertBefore behind x rest

/-- An insertion adds one element and loses none. -/
theorem insertBefore_perm (behind : α → Bool) (x : α) (list : List α) :
    (insertBefore behind x list).Perm (x :: list) := by
  induction list with
  | nil => exact List.Perm.refl _
  | cons y rest ih =>
      by_cases hy : behind y
      · simp [insertBefore, hy]
      · simp only [insertBefore, hy, Bool.false_eq_true, if_false]
        exact (ih.cons y).trans (List.Perm.swap x y rest)

theorem mem_insertBefore {behind : α → Bool} {x y : α} {list : List α} :
    y ∈ insertBefore behind x list ↔ y = x ∨ y ∈ list := by
  rw [(insertBefore_perm behind x list).mem_iff, List.mem_cons]

/-- Insertion keeps a list ordered, when the test says on which side of `x` an
element belongs and no element before `x` follows one after it. -/
theorem insertBefore_pairwise {R : α → α → Prop} {behind : α → Bool} {x : α} {list : List α}
    (hlist : list.Pairwise R) (hbehind : ∀ y ∈ list, behind y = true → R x y)
    (hbefore : ∀ y ∈ list, behind y = false → R y x)
    (hclosed : ∀ y ∈ list, ∀ z ∈ list, R y z → behind y = true → behind z = true) :
    (insertBefore behind x list).Pairwise R := by
  induction list with
  | nil => simp [insertBefore]
  | cons y rest ih =>
      obtain ⟨hy, hrest⟩ := List.pairwise_cons.mp hlist
      cases hcase : behind y with
      | true =>
          simp only [insertBefore, hcase, if_true]
          refine List.pairwise_cons.mpr ⟨fun z hz => ?_, hlist⟩
          rcases List.mem_cons.mp hz with rfl | hz'
          · exact hbehind z List.mem_cons_self hcase
          · exact hbehind z hz
              (hclosed y List.mem_cons_self z hz (hy z hz') hcase)
      | false =>
          simp only [insertBefore, hcase, Bool.false_eq_true, if_false]
          refine List.pairwise_cons.mpr ⟨fun z hz => ?_, ih hrest ?_ ?_ ?_⟩
          · rcases mem_insertBefore.mp hz with rfl | hz'
            · exact hbefore y List.mem_cons_self hcase
            · exact hy z hz'
          · exact fun z hz => hbehind z (List.mem_cons_of_mem _ hz)
          · exact fun z hz => hbefore z (List.mem_cons_of_mem _ hz)
          · exact fun z hz w hw =>
              hclosed z (List.mem_cons_of_mem _ hz) w (List.mem_cons_of_mem _ hw)

/-- Mapping commutes with insertion when the tests on both sides agree. -/
theorem map_insertBefore_comm {behind : α → Bool} (behind' : β → Bool) {f : α → β} {x : α}
    {list : List α} (htest : ∀ y ∈ list, behind y = behind' (f y)) :
    (insertBefore behind x list).map f = insertBefore behind' (f x) (list.map f) := by
  induction list with
  | nil => rfl
  | cons y rest ih =>
      have hrest := ih fun z hz => htest z (List.mem_cons_of_mem _ hz)
      simp only [insertBefore, List.map_cons, ← htest y List.mem_cons_self]
      split
      · rfl
      · rw [List.map_cons, hrest]

/-- Rewriting the inserted element after the insertion, by a function that leaves
the others alone, is inserting the rewritten element. -/
theorem map_insertBefore {behind : α → Bool} {f : α → α} {x : α} {list : List α}
    (hfix : ∀ y ∈ list, f y = y) :
    (insertBefore behind x list).map f = insertBefore behind (f x) list := by
  rw [map_insertBefore_comm behind fun y hy => by rw [hfix y hy],
    (List.map_congr_left hfix).trans (List.map_id' list)]

/-- In an ordered list the elements that satisfy a downward closed test are the
leading ones. -/
theorem takeWhile_eq_filter {R : α → α → Prop} (test : α → Bool) {list : List α}
    (hlist : list.Pairwise R)
    (hclosed : ∀ y ∈ list, ∀ z ∈ list, R y z → test z = true → test y = true) :
    list.takeWhile test = list.filter test ∧
      list.dropWhile test = list.filter fun y => !test y := by
  induction list with
  | nil => simp
  | cons y rest ih =>
      obtain ⟨hy, hrest⟩ := List.pairwise_cons.mp hlist
      obtain ⟨htake, hdrop⟩ := ih hrest fun z hz w hw =>
        hclosed z (List.mem_cons_of_mem _ hz) w (List.mem_cons_of_mem _ hw)
      cases hcase : test y with
      | true => simp [hcase, htake, hdrop]
      | false =>
          have hnone : ∀ z ∈ rest, test z = false := by
            intro z hz
            by_contra hz'
            have hdown := hclosed y List.mem_cons_self z (List.mem_cons_of_mem _ hz) (hy z hz)
              (by simpa using hz')
            simp [hcase] at hdown
          have hempty : rest.filter test = [] := by simpa using hnone
          have hall : (rest.filter fun z => !test z) = rest := by simpa using hnone
          simp [hcase, hempty, hall]

/-- In a list ordered by a key, an element stands behind those of smaller key and
before those of larger key, so counting keys bounds its position. -/
theorem countP_key_bounds {γ : Type w} [LinearOrder γ] {key : α → γ} {list : List α}
    (hlist : list.Pairwise fun y z => key y ≤ key z) {k : Nat} {x : α} (hx : list[k]? = some x) :
    list.countP (fun y => key y < key x) ≤ k ∧ k < list.countP fun y => key y ≤ key x := by
  induction list generalizing k with
  | nil => simp at hx
  | cons y rest ih =>
      obtain ⟨hy, hrest⟩ := List.pairwise_cons.mp hlist
      simp only [List.countP_cons]
      cases k with
      | zero =>
          obtain rfl : y = x := by simpa using hx
          have hnone : rest.countP (fun z => decide (key z < key y)) = 0 := by
            simpa using hy
          simp [hnone]
      | succ k =>
          obtain ⟨hlow, hhigh⟩ := ih hrest (by simpa using hx)
          have hle : key y ≤ key x := hy x (List.mem_of_getElem? (by simpa using hx))
          simp only [decide_eq_true hle, if_true]
          refine ⟨?_, Nat.succ_lt_succ hhigh⟩
          split <;> omega

end McuProxy.Math
