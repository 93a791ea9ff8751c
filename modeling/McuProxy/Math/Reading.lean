/-
# Programs that read an array

A parser asks for single elements of an array by their index, and what it asks
next depends on the answers. `Reading` is such a program as a tree: its result and
the list of indices it reads follow from one function that answers the questions.
A bound on the indices is then a statement about the program itself, composed
along `bind` like its result.
-/

import Mathlib.Logic.Basic

namespace McuProxy.Math

universe u v

/-- A program that reads elements of type `β` and ends with a result. -/
inductive Reading (β : Type u) (α : Type v)
  | done (result : α)
  | read (i : Nat) (next : β → Reading β α)

namespace Reading

variable {β : Type u} {α γ : Type v}

protected def bind : Reading β α → (α → Reading β γ) → Reading β γ
  | .done result, next => next result
  | .read i rest, next => .read i fun element => (rest element).bind next

instance : Monad (Reading β) where
  pure := .done
  bind := Reading.bind

/-- Read the element at an index. -/
def ask (i : Nat) : Reading β β := .read i .done

/-- The result, where `memory` answers the questions. -/
def run (memory : Nat → β) : Reading β α → α
  | .done result => result
  | .read i next => (next (memory i)).run memory

/-- The indices that are read, in order. -/
def indices (memory : Nat → β) : Reading β α → List Nat
  | .done _ => []
  | .read i next => i :: (next (memory i)).indices memory

/-- Every index that is read lies below the bound. -/
def ReadsBelow (bound : Nat) (memory : Nat → β) (program : Reading β α) : Prop :=
  ∀ i ∈ program.indices memory, i < bound

variable (memory : Nat → β)

@[simp]
theorem run_pure (result : α) : (pure result : Reading β α).run memory = result := rfl

@[simp]
theorem run_bind (program : Reading β α) (next : α → Reading β γ) :
    (program >>= next).run memory = (next (program.run memory)).run memory := by
  induction program with
  | done result => rfl
  | read i rest ih => exact ih (memory i)

theorem indices_bind (program : Reading β α) (next : α → Reading β γ) :
    (program >>= next).indices memory =
      program.indices memory ++ (next (program.run memory)).indices memory := by
  induction program with
  | done result => rfl
  | read i rest ih => exact congrArg (i :: ·) (ih (memory i))

variable (bound : Nat)

@[simp]
theorem readsBelow_pure (result : α) : (pure result : Reading β α).ReadsBelow bound memory :=
  fun _ hmem => absurd hmem List.not_mem_nil

/-- Both parts of a sequence stay below the bound. -/
@[simp]
theorem readsBelow_bind (program : Reading β α) (next : α → Reading β γ) :
    (program >>= next).ReadsBelow bound memory ↔
      program.ReadsBelow bound memory ∧ (next (program.run memory)).ReadsBelow bound memory := by
  unfold ReadsBelow
  rw [indices_bind]
  exact List.forall_mem_append

end Reading

namespace Reading

variable {β α : Type u} (memory : Nat → β)

@[simp]
theorem run_ask (i : Nat) : (ask i).run memory = memory i := rfl

/-- The answer goes to the rest of the program as a whole, with the tests that
depend on it. -/
theorem run_ask_bind (i : Nat) (next : β → Reading β α) :
    (ask i >>= next).run memory = (next (memory i)).run memory := rfl

@[simp]
theorem readsBelow_ask (bound i : Nat) : (ask i).ReadsBelow bound memory ↔ i < bound := by
  unfold ReadsBelow
  exact List.forall_mem_singleton

theorem readsBelow_ask_bind (bound i : Nat) (next : β → Reading β α) :
    (ask i >>= next).ReadsBelow bound memory ↔
      i < bound ∧ (next (memory i)).ReadsBelow bound memory := by
  rw [readsBelow_bind, readsBelow_ask, run_ask]

end Reading

end McuProxy.Math
