/-
# Programs that allocate

A program asks for blocks of memory, is refused some of them, and gives blocks
back. It has no result once it gives back a block that it does not hold, or leaves
the data it works on. Which requests are refused is not up to the program.

`Triple` says what a program does with the blocks it is handed: it ends, and what is
held in the end is named by the result. Blocks that the program is not handed stay
as they are, so a triple about a part of a program is one about the whole.
-/

import Mathlib.Algebra.Order.Group.Multiset
import Mathlib.Data.Multiset.AddSub

namespace McuProxy.Math

/-- The memory as an allocating program sees it. A block is named by the request that
was answered with it. -/
structure Ledger where
  granted : Nat → Bool
  calls : Nat
  live : Multiset Nat
  distinct : live.Nodup
  issued : ∀ block ∈ live, block < calls

/-- A program that allocates. -/
abbrev Allocating (α : Type) : Type := StateT Ledger Option α

namespace Ledger

/-- Nothing is allocated yet. -/
def empty (granted : Nat → Bool) : Ledger where
  granted := granted
  calls := 0
  live := 0
  distinct := Multiset.nodup_zero
  issued block hmem := absurd hmem (Multiset.notMem_zero block)

/-- No request is refused. -/
def Generous (ledger : Ledger) : Prop := ∀ call, ledger.granted call = true

/-- The next request is granted. -/
def grant (ledger : Ledger) : Ledger where
  granted := ledger.granted
  calls := ledger.calls + 1
  live := ledger.calls ::ₘ ledger.live
  distinct := Multiset.nodup_cons.mpr
    ⟨fun hmem => Nat.lt_irrefl _ (ledger.issued _ hmem), ledger.distinct⟩
  issued block hmem := by
    rcases Multiset.mem_cons.mp hmem with rfl | hold
    · exact Nat.lt_succ_self _
    · exact Nat.lt_succ_of_lt (ledger.issued block hold)

/-- The next request is refused. -/
def refuse (ledger : Ledger) : Ledger :=
  { ledger with
    calls := ledger.calls + 1
    issued := fun block hmem => Nat.lt_succ_of_lt (ledger.issued block hmem) }

/-- A block is given back. -/
def release (ledger : Ledger) (block : Nat) : Ledger :=
  { ledger with
    live := ledger.live.erase block
    distinct := ledger.distinct.erase block
    issued := fun other hmem => ledger.issued other (Multiset.mem_of_mem_erase hmem) }

end Ledger

namespace Allocating

/-- `malloc`: a new block, or `NULL`. -/
def malloc : Allocating (Option Nat) := fun ledger =>
  if ledger.granted ledger.calls then some (some ledger.calls, ledger.grant)
  else some (none, ledger.refuse)

/-- `free`. There is no result for a block that is not allocated. -/
def free (block : Nat) : Allocating Unit := fun ledger =>
  if block ∈ ledger.live then some ((), ledger.release block) else none

/-- The program leaves its data. -/
def fault {α : Type} : Allocating α := fun _ => none

/-- A step that is defined only on some data. -/
def ofOption {α : Type} (result : Option α) : Allocating α := fun ledger =>
  result.map fun value => (value, ledger)

/-- With the blocks `paid` in its hands a program ends, and `post` relates its result
to the blocks it holds then. No other block is touched. -/
def Triple {α : Type} (granted : Nat → Bool) (program : Allocating α) (paid : Multiset Nat)
    (post : α → Multiset Nat → Prop) : Prop :=
  ∀ ledger kept, ledger.granted = granted → ledger.live = paid + kept →
    ∃ result final owned, program ledger = some (result, final) ∧ final.granted = granted ∧
      final.live = owned + kept ∧ post result owned

section Rules

variable {α β : Type} {granted : Nat → Bool} {paid : Multiset Nat}
  {post : α → Multiset Nat → Prop}

theorem Triple.pure {result : α} (hpost : post result paid) :
    Triple granted (pure result) paid post :=
  fun ledger _ hgranted hlive => ⟨result, ledger, paid, rfl, hgranted, hlive, hpost⟩

/-- Two programs one after the other. -/
theorem Triple.bind {program : Allocating α} {next : α → Allocating β}
    {last : β → Multiset Nat → Prop} (hprogram : Triple granted program paid post)
    (hnext : ∀ result owned, post result owned → Triple granted (next result) owned last) :
    Triple granted (program >>= next) paid last := by
  intro ledger kept hgranted hlive
  obtain ⟨result, middle, owned, hrun, hgranted', hlive', hpost⟩ :=
    hprogram ledger kept hgranted hlive
  obtain ⟨answer, final, owned', hrun', hfinal⟩ :=
    hnext result owned hpost middle kept hgranted' hlive'
  refine ⟨answer, final, owned', ?_, hfinal⟩
  change (program ledger).bind (fun pair => next pair.1 pair.2) = _
  rw [hrun, Option.bind_some, hrun']

theorem Triple.mono {program : Allocating α} {weaker : α → Multiset Nat → Prop}
    (hprogram : Triple granted program paid post)
    (himp : ∀ result owned, post result owned → weaker result owned) :
    Triple granted program paid weaker := by
  intro ledger kept hgranted hlive
  obtain ⟨result, final, owned, hrun, hgranted', hlive', hpost⟩ :=
    hprogram ledger kept hgranted hlive
  exact ⟨result, final, owned, hrun, hgranted', hlive', himp result owned hpost⟩

/-- Further blocks in the hands of the program stay there. -/
theorem Triple.frame {program : Allocating α} (hprogram : Triple granted program paid post)
    (extra : Multiset Nat) :
    Triple granted program (paid + extra)
      fun result owned => ∃ own, post result own ∧ owned = own + extra := by
  intro ledger kept hgranted hlive
  obtain ⟨result, final, owned, hrun, hgranted', hlive', hpost⟩ :=
    hprogram ledger (extra + kept) hgranted (by rw [hlive, add_assoc])
  exact ⟨result, final, owned + extra, hrun, hgranted', by rw [hlive', add_assoc],
    owned, hpost, rfl⟩

/-- A request is granted with a block that nobody holds, or refused. -/
theorem Triple.malloc (granted : Nat → Bool) :
    Triple granted Allocating.malloc 0
      fun result owned => match result with
        | none => owned = 0 ∧ ∃ call, granted call = false
        | some block => owned = {block} := by
  intro ledger kept hgranted hlive
  rw [zero_add] at hlive
  by_cases hgrant : ledger.granted ledger.calls
  · refine ⟨some ledger.calls, ledger.grant, {ledger.calls}, if_pos hgrant, hgranted, ?_, rfl⟩
    rw [Multiset.singleton_add, ← hlive]
    rfl
  · refine ⟨none, ledger.refuse, 0, if_neg hgrant, hgranted, by rw [zero_add]; exact hlive,
      rfl, ledger.calls, ?_⟩
    rw [← hgranted]
    exact Bool.eq_false_iff.mpr hgrant

theorem Triple.free {block : Nat} :
    Triple granted (Allocating.free block) {block} fun _ owned => owned = 0 := by
  intro ledger kept hgranted hlive
  rw [Multiset.singleton_add] at hlive
  have hmem : block ∈ ledger.live := by
    rw [hlive]
    exact Multiset.mem_cons_self block kept
  refine ⟨(), ledger.release block, 0, if_pos hmem, hgranted, ?_, rfl⟩
  rw [zero_add]
  exact (congrArg (Multiset.erase · block) hlive).trans (Multiset.erase_cons_head block kept)

/-- A step that gives back all it is handed, and then the rest. -/
theorem Triple.spend {first : Allocating Unit} {second : Allocating α} {rest : Multiset Nat}
    (hfirst : Triple granted first paid fun _ owned => owned = 0)
    (hsecond : Triple granted second rest post) :
    Triple granted (first >>= fun _ => second) (paid + rest) post := by
  refine (hfirst.frame rest).bind ?_
  rintro - owned ⟨own, rfl, rfl⟩
  rw [zero_add]
  exact hsecond

/-- Both answers to a request. -/
theorem Triple.malloc_bind {next : Option Nat → Allocating α}
    (hrefused : (∃ call, granted call = false) → Triple granted (next none) paid post)
    (hgranted : ∀ block, Triple granted (next (some block)) ({block} + paid) post) :
    Triple granted (Allocating.malloc >>= next) paid post := by
  have hmalloc := (Triple.malloc granted).frame paid
  rw [zero_add] at hmalloc
  refine hmalloc.bind ?_
  rintro (- | block) owned ⟨own, hown, rfl⟩
  · obtain ⟨rfl, hcall⟩ := hown
    rw [zero_add]
    exact hrefused hcall
  · rw [hown]
    exact hgranted block

/-- A step that is defined on the data at hand. -/
theorem Triple.ofOption_bind {next : β → Allocating α} {value : β} {result : Option β}
    (hresult : result = some value) (hnext : Triple granted (next value) paid post) :
    Triple granted (Allocating.ofOption result >>= next) paid post := by
  subst hresult
  exact hnext

end Rules

/-- Where no request is refused, a program ends with a result of this kind. Which blocks
it holds then is left open. -/
def Gives {α : Type} (program : Allocating α) (post : α → Prop) : Prop :=
  ∀ ledger : Ledger, ledger.Generous → ∃ result final,
    program ledger = some (result, final) ∧ final.Generous ∧ post result

section Giving

variable {α β : Type} {post : α → Prop}

theorem Gives.pure {result : α} (hpost : post result) : Gives (pure result) post :=
  fun ledger hgenerous => ⟨result, ledger, rfl, hgenerous, hpost⟩

theorem Gives.bind {program : Allocating α} {next : α → Allocating β} {last : β → Prop}
    (hprogram : Gives program post) (hnext : ∀ result, post result → Gives (next result) last) :
    Gives (program >>= next) last := by
  intro ledger hgenerous
  obtain ⟨result, middle, hrun, hgenerous', hpost⟩ := hprogram ledger hgenerous
  obtain ⟨answer, final, hrun', hfinal⟩ := hnext result hpost middle hgenerous'
  refine ⟨answer, final, ?_, hfinal⟩
  change (program ledger).bind (fun pair => next pair.1 pair.2) = _
  rw [hrun, Option.bind_some, hrun']

theorem Gives.mono {program : Allocating α} {weaker : α → Prop} (hprogram : Gives program post)
    (himp : ∀ result, post result → weaker result) : Gives program weaker := by
  intro ledger hgenerous
  obtain ⟨result, final, hrun, hgenerous', hpost⟩ := hprogram ledger hgenerous
  exact ⟨result, final, hrun, hgenerous', himp result hpost⟩

theorem Gives.malloc_bind {next : Option Nat → Allocating α}
    (hnext : ∀ block, Gives (next (some block)) post) : Gives (malloc >>= next) post := by
  intro ledger hgenerous
  obtain ⟨result, final, hrun, hfinal⟩ := hnext ledger.calls ledger.grant hgenerous
  refine ⟨result, final, ?_, hfinal⟩
  change (malloc ledger).bind (fun pair => next pair.1 pair.2) = _
  rw [malloc, if_pos (hgenerous ledger.calls), Option.bind_some, hrun]

theorem Gives.ofOption_bind {next : β → Allocating α} {value : β} {result : Option β}
    (hresult : result = some value) (hnext : Gives (next value) post) :
    Gives (ofOption result >>= next) post := by
  subst hresult
  exact hnext

end Giving

end Allocating

end McuProxy.Math
