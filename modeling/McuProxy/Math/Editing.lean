/-
# Programs that edit an array

A program that reads single elements of an array and writes others, where the next
index depends on what was read before. `Editing` is such a program as a tree. It
runs on an array of fixed size and has no result once it leaves it; the indices it
touches are known up to the first one that lies outside.

Whether a program stays inside the front part of an array does not depend on the
rest: it does exactly when it can be run on the front part alone.
-/

import Mathlib.Data.List.Basic

namespace McuProxy.Math

universe u v

/-- A program that reads and writes elements of type `β` and ends with a result. -/
inductive Editing (β : Type u) (α : Type v)
  | done (result : α)
  | read (i : Nat) (next : β → Editing β α)
  | write (i : Nat) (element : β) (next : Editing β α)

namespace Editing

variable {β : Type u} {α γ : Type v}

protected def bind : Editing β α → (α → Editing β γ) → Editing β γ
  | .done result, next => next result
  | .read i rest, next => .read i fun element => (rest element).bind next
  | .write i element rest, next => .write i element (rest.bind next)

instance : Monad (Editing β) where
  pure := .done
  bind := Editing.bind

/-- Read the element at an index. -/
def load (i : Nat) : Editing β β := .read i .done

/-- Write the element at an index. -/
def store (i : Nat) (element : β) : Editing β Unit := .write i element (.done ())

/-- The result and the array that is left, if the program stays inside the array. -/
def run : Editing β α → List β → Option (α × List β)
  | .done result, array => some (result, array)
  | .read i next, array => array[i]?.bind fun element => (next element).run array
  | .write i element next, array =>
      if i < array.length then next.run (array.set i element) else none

/-- The indices that are touched, up to the first one outside the array. -/
def touched : Editing β α → List β → List Nat
  | .done _, _ => []
  | .read i next, array => i :: array[i]?.elim [] fun element => (next element).touched array
  | .write i element next, array =>
      i :: if i < array.length then next.touched (array.set i element) else []

@[simp]
theorem run_pure (result : α) (array : List β) :
    (pure result : Editing β α).run array = some (result, array) := rfl

@[simp]
theorem run_bind (program : Editing β α) (next : α → Editing β γ) (array : List β) :
    (program >>= next).run array =
      (program.run array).bind fun answer => (next answer.1).run answer.2 := by
  induction program generalizing array with
  | done result => rfl
  | read i rest ih =>
      change (array[i]?.bind fun element => (rest element >>= next).run array) =
        (array[i]?.bind fun element => (rest element).run array).bind _
      cases array[i]? with
      | none => rfl
      | some element => exact ih element array
  | write i element rest ih =>
      change (if i < array.length then (rest >>= next).run (array.set i element) else none) =
        (if i < array.length then rest.run (array.set i element) else none).bind _
      split_ifs
      · exact ih _
      · rfl

/-- The front part of an array answers like the array. -/
theorem run_take {program : Editing β α} {array front : List β} {n : Nat} {result : α}
    (hrun : program.run (array.take n) = some (result, front)) :
    program.run array = some (result, front ++ array.drop n) := by
  induction program generalizing array with
  | done answer =>
      obtain ⟨rfl, rfl⟩ := Prod.mk.inj (Option.some.inj hrun)
      rw [List.take_append_drop]
      rfl
  | read i next ih =>
      obtain ⟨element, hread, hrest⟩ := Option.bind_eq_some_iff.mp hrun
      have hsame : array[i]? = some element := by
        rw [List.getElem?_take] at hread
        split_ifs at hread
        exact hread
      rw [run, hsame]
      exact ih element hrest
  | write i element next ih =>
      rw [run] at hrun
      split_ifs at hrun with hfront
      rw [List.length_take] at hfront
      rw [← List.take_set] at hrun
      have hrest := ih hrun
      rw [List.drop_set_of_lt (by omega)] at hrest
      rw [run, if_pos (by omega)]
      exact hrest

/-- A program touches only the front part of an array exactly when it runs on that
part alone. -/
theorem touched_lt_iff (program : Editing β α) {array : List β} {n : Nat}
    (hn : n ≤ array.length) :
    (∀ i ∈ program.touched array, i < n) ↔ (program.run (array.take n)).isSome := by
  induction program generalizing array with
  | done result => exact ⟨fun _ => rfl, fun _ i hi => absurd hi List.not_mem_nil⟩
  | read i next ih =>
      by_cases hi : i < n
      · have hread : array[i]? = some (array.get ⟨i, by omega⟩) :=
          List.getElem?_eq_getElem (by omega)
        have hfront : (array.take n)[i]? = array[i]? := List.getElem?_take_of_lt hi
        rw [touched, run, hfront, hread, List.forall_mem_cons]
        simp only [hi, true_and, Option.elim_some, Option.bind_some]
        exact ih _ hn
      · have hfront : (array.take n)[i]? = none := by
          rw [List.getElem?_take, if_neg hi]
        rw [touched, run, hfront, List.forall_mem_cons]
        simp [hi]
  | write i element next ih =>
      have hlength : (array.take n).length = n := List.length_take_of_le hn
      rw [touched, run, hlength, List.forall_mem_cons]
      by_cases hi : i < n
      · rw [if_pos (Nat.lt_of_lt_of_le hi hn), if_pos hi, ← List.take_set]
        simp only [hi, true_and]
        exact ih (by rw [List.length_set]; exact hn)
      · simp [hi]

end Editing

namespace Editing

variable {β α : Type u} (array : List β)

/-- The element goes to the rest of the program as a whole, with the tests that
depend on it. -/
theorem run_load_bind (i : Nat) (next : β → Editing β α) :
    (load i >>= next).run array = array[i]?.bind fun element => (next element).run array := rfl

theorem run_store_bind {α : Type} (i : Nat) (element : β) (next : Unit → Editing β α) :
    (store i element >>= next).run array =
      if i < array.length then (next ()).run (array.set i element) else none := rfl

end Editing

end McuProxy.Math
