/-
# Partial maps with limited room

A partial map together with the number of entries it can still take. An insertion
needs room for its own entry even where it replaces another one, because the new
entry is made before the old one is given up.

A list of entries stands for such a map. Putting an entry into the list, or taking
one out, is an insertion or an erasure wherever it is done, as long as no other
entry of the list has the same key.
-/

import Mathlib.Logic.Function.Basic
import Mathlib.Tactic.SplitIfs

namespace McuProxy.Math

universe u v

/-- A partial map and the room that is left in it. -/
structure LimitedMap (κ : Type u) (α : Type v) where
  lookup : κ → Option α
  free : Nat

namespace LimitedMap

variable {κ : Type u} {α : Type v}

@[ext]
theorem ext {first second : LimitedMap κ α} (hlookup : ∀ key, first.lookup key = second.lookup key)
    (hfree : first.free = second.free) : first = second := by
  cases first with
  | mk lookup free =>
      cases second with
      | mk lookup' free' =>
          obtain rfl : lookup = lookup' := funext hlookup
          obtain rfl : free = free' := hfree
          rfl

variable [DecidableEq κ]

/-- The map without entries. -/
def empty (limit : Nat) : LimitedMap κ α := ⟨fun _ => none, limit⟩

/-- Map a key to a value. The entry that was there makes room for itself. -/
def insert (map : LimitedMap κ α) (key : κ) (value : α) : LimitedMap κ α where
  lookup := Function.update map.lookup key (some value)
  free := if (map.lookup key).isSome then map.free else map.free - 1

/-- Take a key out. -/
def erase (map : LimitedMap κ α) (key : κ) : LimitedMap κ α where
  lookup := Function.update map.lookup key none
  free := if (map.lookup key).isSome then map.free + 1 else map.free

/-- The value that a list of entries has for a key. -/
def lookupIn (entries : List (κ × α)) (key : κ) : Option α :=
  (entries.find? fun entry => entry.1 = key).map Prod.snd

/-- The map of a list of entries. -/
def ofEntries (entries : List (κ × α)) (free : Nat) : LimitedMap κ α := ⟨lookupIn entries, free⟩

theorem lookupIn_eq_none {entries : List (κ × α)} {key : κ}
    (hother : ∀ entry ∈ entries, entry.1 ≠ key) : lookupIn entries key = none := by
  rw [lookupIn, List.find?_eq_none.mpr]
  · rfl
  · intro entry hentry
    simpa using hother entry hentry

/-- One entry decides the lookup of its own key and no other. -/
theorem lookupIn_middle {pre post : List (κ × α)} {key : κ} (value : α)
    (hpre : ∀ entry ∈ pre, entry.1 ≠ key) (other : κ) :
    lookupIn (pre ++ (key, value) :: post) other =
      if other = key then some value else lookupIn (pre ++ post) other := by
  unfold lookupIn
  rw [List.find?_append, List.find?_append]
  by_cases hkey : other = key
  · subst hkey
    have hnone : pre.find? (fun entry => entry.1 = other) = none := by
      refine List.find?_eq_none.mpr fun entry hentry => ?_
      simpa using hpre entry hentry
    simp [hnone]
  · have hskip : ¬ key = other := fun heq => hkey heq.symm
    simp [hkey, hskip]

/-- Putting in an entry with a new key. -/
theorem ofEntries_insert {pre post : List (κ × α)} {key : κ} (value : α)
    (hpre : ∀ entry ∈ pre, entry.1 ≠ key) (hpost : ∀ entry ∈ post, entry.1 ≠ key) (free : Nat) :
    ofEntries (pre ++ (key, value) :: post) free =
      (ofEntries (pre ++ post) (free + 1)).insert key value := by
  have hnone : lookupIn (pre ++ post) key = none :=
    lookupIn_eq_none fun entry hentry => (List.mem_append.mp hentry).elim (hpre entry) (hpost entry)
  refine ext (fun other => ?_) ?_
  · simp only [ofEntries, insert, lookupIn_middle value hpre, Function.update_apply]
  · simp [ofEntries, insert, hnone]

/-- Putting in an entry in place of the one with the same key. -/
theorem ofEntries_replace {pre post : List (κ × α)} {key : κ} (value old : α)
    (hpre : ∀ entry ∈ pre, entry.1 ≠ key) (free : Nat) :
    ofEntries (pre ++ (key, value) :: post) free =
      (ofEntries (pre ++ (key, old) :: post) free).insert key value := by
  refine ext (fun other => ?_) ?_
  · simp only [ofEntries, insert, lookupIn_middle _ hpre, Function.update_apply]
    split_ifs <;> rfl
  · simp [ofEntries, insert, lookupIn_middle old hpre]

/-- Taking out the only entry with a key. -/
theorem ofEntries_erase {pre post : List (κ × α)} {key : κ} (value : α)
    (hpre : ∀ entry ∈ pre, entry.1 ≠ key) (hpost : ∀ entry ∈ post, entry.1 ≠ key) (free : Nat) :
    ofEntries (pre ++ post) (free + 1) =
      (ofEntries (pre ++ (key, value) :: post) free).erase key := by
  have hnone : lookupIn (pre ++ post) key = none :=
    lookupIn_eq_none fun entry hentry => (List.mem_append.mp hentry).elim (hpre entry) (hpost entry)
  refine ext (fun other => ?_) ?_
  · simp only [ofEntries, erase, lookupIn_middle value hpre, Function.update_apply]
    split_ifs with hkey
    · rw [hkey, hnone]
    · rfl
  · simp [ofEntries, erase, lookupIn_middle value hpre]

end LimitedMap

end McuProxy.Math
