/-
# Chains of cells

A singly linked list in a heap of typed cells: a cell has a content and a link,
and the last link of a chain is null. `Segment` says that the cells of a list
follow each other from one link to another, so that a chain can be cut at any
cell; it speaks of addresses and contents only, and relinking a cell changes
neither.

The loops over a chain that look for a content, for the last cell, or that visit
every cell are given here with what they find. Reading an address that holds no
cell is undefined.
-/

import Mathlib.Data.List.Nodup
import Mathlib.Data.List.Perm.Subperm
import Mathlib.Logic.Function.Basic

namespace McuProxy.Memory

variable {α σ : Type}

/-- A cell of a chain. -/
structure Cell (α : Type) where
  next : Option Nat
  content : α

/-- From the link `head` on, the given contents follow each other at the given
addresses, and the last of them links to `tail`. -/
def Segment (heap : Nat → Option (Cell α)) :
    Option Nat → List (Nat × α) → Option Nat → Prop
  | head, [], tail => head = tail
  | head, (address, content) :: rest, tail =>
      head = some address ∧ ∃ next, heap address = some ⟨next, content⟩ ∧
        Segment heap next rest tail

namespace Segment

variable {heap heap' : Nat → Option (Cell α)} {head tail : Option Nat}
  {front back cells : List (Nat × α)} {address : Nat} {content : α}

@[simp]
theorem nil_iff : Segment heap head [] tail ↔ head = tail := Iff.rfl

theorem cons_iff : Segment heap head ((address, content) :: cells) tail ↔
    head = some address ∧
      ∃ next, heap address = some ⟨next, content⟩ ∧ Segment heap next cells tail := Iff.rfl

theorem append_iff : Segment heap head (front ++ back) tail ↔
    ∃ middle, Segment heap head front middle ∧ Segment heap middle back tail := by
  induction front generalizing head with
  | nil => simp
  | cons cell front ih =>
      obtain ⟨address, content⟩ := cell
      simp only [List.cons_append, cons_iff, ih]
      constructor
      · rintro ⟨hhead, next, hcell, middle, hfront, hback⟩
        exact ⟨middle, ⟨hhead, next, hcell, hfront⟩, hback⟩
      · rintro ⟨middle, ⟨hhead, next, hcell, hfront⟩, hback⟩
        exact ⟨hhead, next, hcell, middle, hfront, hback⟩

/-- Every cell of a segment is in the heap. -/
theorem exists_cell (hsegment : Segment heap head cells tail) {cell : Nat × α}
    (hmem : cell ∈ cells) : ∃ next, heap cell.1 = some ⟨next, cell.2⟩ := by
  obtain ⟨front, back, rfl⟩ := List.append_of_mem hmem
  obtain ⟨middle, -, -, next, hcell, -⟩ := append_iff.mp hsegment
  exact ⟨next, hcell⟩

/-- A segment depends on its own cells only. -/
theorem frame (hsegment : Segment heap head cells tail)
    (hsame : ∀ cell ∈ cells, heap' cell.1 = heap cell.1) : Segment heap' head cells tail := by
  induction cells generalizing head with
  | nil => exact hsegment
  | cons cell cells ih =>
      obtain ⟨hhead, next, hcell, hrest⟩ := hsegment
      refine ⟨hhead, next, ?_,
        ih hrest fun other hother => hsame other (List.mem_cons_of_mem _ hother)⟩
      rw [hsame cell List.mem_cons_self, hcell]

theorem frame_update (hsegment : Segment heap head cells tail)
    (haddress : address ∉ cells.map Prod.fst) (value : Option (Cell α)) :
    Segment (Function.update heap address value) head cells tail :=
  hsegment.frame fun _ hcell => Function.update_of_ne
    (fun heq => haddress (List.mem_map.mpr ⟨_, hcell, heq⟩)) _ _

/-- Writing the last cell of a segment writes its content and the link it ends
with. -/
theorem write_last (hsegment : Segment heap head (front ++ [(address, content)]) tail)
    (haddress : address ∉ front.map Prod.fst) (content' : α) (tail' : Option Nat) :
    Segment (Function.update heap address (some ⟨tail', content'⟩)) head
      (front ++ [(address, content')]) tail' := by
  obtain ⟨middle, hfront, hhead, -⟩ := append_iff.mp hsegment
  exact append_iff.mpr ⟨middle, hfront.frame_update haddress _, hhead, tail',
    Function.update_self _ _ _, rfl⟩

/-- Writing the content of a cell. -/
theorem write {next : Option Nat} {content' : α}
    (hsegment : Segment heap head (front ++ (address, content) :: back) tail)
    (hcell : heap address = some ⟨next, content⟩)
    (hfront : address ∉ front.map Prod.fst) (hback : address ∉ back.map Prod.fst) :
    Segment (Function.update heap address (some ⟨next, content'⟩)) head
      (front ++ (address, content') :: back) tail := by
  obtain ⟨middle, hbefore, hhead, other, hother, hafter⟩ := append_iff.mp hsegment
  obtain rfl : other = next := by
    rw [hcell] at hother
    exact (Cell.mk.inj (Option.some.inj hother)).1.symm
  exact append_iff.mpr ⟨middle, hbefore.frame_update hfront _, hhead, other,
    Function.update_self _ _ _, hafter.frame_update hback _⟩

/-- Linking the predecessor of a cell to its successor takes the cell out. -/
theorem unlink {prev : Nat} {before : α} {next : Option Nat}
    (hsegment : Segment heap head (front ++ (prev, before) :: (address, content) :: back) tail)
    (hcell : heap address = some ⟨next, content⟩)
    (hfront : prev ∉ front.map Prod.fst) (hback : prev ∉ back.map Prod.fst) :
    Segment (Function.update heap prev (some ⟨next, before⟩)) head
      (front ++ (prev, before) :: back) tail := by
  obtain ⟨middle, hbefore, hhead, other, hother, hlink, link, hlinked, hafter⟩ :=
    append_iff.mp hsegment
  obtain rfl : link = next := by
    rw [hcell] at hlinked
    exact (Cell.mk.inj (Option.some.inj hlinked)).1.symm
  exact append_iff.mpr ⟨middle, hbefore.frame_update hfront _, hhead, link,
    Function.update_self _ _ _, hafter.frame_update hback _⟩

/-- Two writes link a new cell behind the last one. -/
theorem link_last {last : Nat} {new : α}
    (hsegment : Segment heap head (front ++ [(last, content)]) none)
    (hnodup : ((front ++ [(last, content)]).map Prod.fst).Nodup)
    (haddress : address ∉ (front ++ [(last, content)]).map Prod.fst) :
    Segment (Function.update (Function.update heap address (some ⟨none, new⟩)) last
      (some ⟨some address, content⟩)) head (front ++ [(last, content)] ++ [(address, new)])
      none := by
  have hne : address ≠ last := by
    rintro rfl
    exact haddress (by simp)
  rw [List.map_append, List.nodup_append] at hnodup
  have hend := (hsegment.frame_update haddress (some ⟨none, new⟩)).write_last
    (fun hmem => hnodup.2.2 last hmem last (by simp) rfl) content (some address)
  refine append_iff.mpr ⟨some address, hend, rfl, none, ?_, rfl⟩
  exact (Function.update_of_ne hne _ _).trans (Function.update_self _ _ _)

end Segment

/-- `while (link) { if (test(link)) break; prev = link; link = link->next; }`:
the cell before the one the loop stopped at, and that one. -/
def seek (heap : Nat → Option (Cell α)) (test : α → Bool) :
    Nat → Nat → Option Nat → Option (Nat × Option Nat)
  | 0, _, _ => none
  | _ + 1, prev, none => some (prev, none)
  | fuel + 1, prev, some address => do
      let cell ← heap address
      if test cell.content then some (prev, some address)
      else seek heap test fuel address cell.next

/-- The search from a cell on stops at the first content that passes the test,
and knows the cell before it, or runs to the end of the chain. -/
theorem seek_spec {heap : Nat → Option (Cell α)} (test : α → Bool) {head : Option Nat}
    (front : List (Nat × α)) {cells : List (Nat × α)} {prev : Nat} {before : α}
    {link : Option Nat} {fuel : Nat}
    (hchain : Segment heap head (front ++ (prev, before) :: cells) none)
    (hprev : heap prev = some ⟨link, before⟩)
    (hfront : ∀ cell ∈ front ++ [(prev, before)], test cell.2 = false)
    (hfuel : cells.length < fuel) :
    (∃ front' prev' before' address content back,
      front ++ (prev, before) :: cells =
        front' ++ (prev', before') :: (address, content) :: back ∧
      (∀ cell ∈ front' ++ [(prev', before')], test cell.2 = false) ∧ test content = true ∧
      seek heap test fuel prev link = some (prev', some address)) ∨
    ((∀ cell ∈ cells, test cell.2 = false) ∧
      ∃ last, seek heap test fuel prev link = some (last, none)) := by
  induction cells generalizing front prev before link fuel with
  | nil =>
      obtain ⟨less, rfl⟩ := Nat.exists_eq_add_one.mpr hfuel
      obtain ⟨-, -, -, other, hother, hend⟩ := Segment.append_iff.mp hchain
      obtain rfl : other = link := by
        rw [hprev] at hother
        exact (Cell.mk.inj (Option.some.inj hother)).1.symm
      obtain rfl : other = none := hend
      exact .inr ⟨by simp, prev, rfl⟩
  | cons cell cells ih =>
      obtain ⟨address, content⟩ := cell
      obtain ⟨less, rfl⟩ := Nat.exists_eq_add_one.mpr (Nat.zero_lt_of_lt hfuel)
      obtain ⟨-, -, -, other, hother, hlink, next, hcell, -⟩ := Segment.append_iff.mp hchain
      obtain rfl : other = link := by
        rw [hprev] at hother
        exact (Cell.mk.inj (Option.some.inj hother)).1.symm
      subst hlink
      cases htest : test content with
      | true =>
          exact .inl ⟨front, prev, before, address, content, cells, rfl, hfront, htest,
            by simp [seek, hcell, htest]⟩
      | false =>
          have hshift : front ++ (prev, before) :: (address, content) :: cells =
              (front ++ [(prev, before)]) ++ (address, content) :: cells := by simp
          rw [hshift] at hchain ⊢
          have hskip : seek heap test (less + 1) prev (some address) =
              seek heap test less address next := by simp [seek, hcell, htest]
          rw [hskip]
          rcases ih _ hchain hcell (by
            intro cell hmem
            rcases List.mem_append.mp hmem with hmem | hmem
            · exact hfront cell hmem
            · obtain rfl := List.mem_singleton.mp hmem
              exact htest) (Nat.lt_of_succ_lt_succ hfuel) with hfound | ⟨hnone, hlast⟩
          · exact .inl hfound
          · exact .inr ⟨List.forall_mem_cons.mpr ⟨htest, hnone⟩, hlast⟩

/-- `while (cell->next) cell = cell->next;`. -/
def lastCell (heap : Nat → Option (Cell α)) : Nat → Nat → Option Nat
  | 0, _ => none
  | fuel + 1, address => do
      let cell ← heap address
      match cell.next with
      | none => some address
      | some next => lastCell heap fuel next

theorem lastCell_spec {heap : Nat → Option (Cell α)} {front : List (Nat × α)} {head address : Nat}
    {content : α} {fuel : Nat}
    (hchain : Segment heap (some head) (front ++ [(address, content)]) none)
    (hfuel : front.length < fuel) : lastCell heap fuel head = some address := by
  induction front generalizing head fuel with
  | nil =>
      obtain ⟨less, rfl⟩ := Nat.exists_eq_add_one.mpr hfuel
      obtain ⟨hhead, next, hcell, rfl⟩ := hchain
      obtain rfl := Option.some.inj hhead
      simp [lastCell, hcell]
  | cons cell front ih =>
      obtain ⟨less, rfl⟩ := Nat.exists_eq_add_one.mpr (Nat.zero_lt_of_lt hfuel)
      obtain ⟨hhead, next, hcell, hrest⟩ := hchain
      obtain rfl := Option.some.inj hhead
      obtain ⟨following, rfl⟩ : ∃ following, next = some following := by
        cases front with
        | nil => exact ⟨_, hrest.1⟩
        | cons other front => exact ⟨_, hrest.1⟩
      simp only [lastCell, hcell, Option.bind_eq_bind, Option.bind_some]
      exact ih hrest (Nat.lt_of_succ_lt_succ hfuel)

/-- `do { leave = visit(cell); if (leave) break; } while (cell = cell->next);`: whether
the loop was left early, and the state of the visitor. -/
def visitCells (heap : Nat → Option (Cell α)) (visit : α → σ → Bool × σ) :
    Nat → Nat → σ → Option (Bool × σ)
  | 0, _, _ => none
  | fuel + 1, address, state => do
      let cell ← heap address
      let (leave, state) := visit cell.content state
      if leave then some (true, state)
      else
        match cell.next with
        | none => some (false, state)
        | some next => visitCells heap visit fuel next state

/-- A visit of a chain comes to an end. -/
theorem visitCells_defined {heap : Nat → Option (Cell α)} (visit : α → σ → Bool × σ)
    {cells : List (Nat × α)} {head : Nat} {fuel : Nat} (state : σ)
    (hchain : Segment heap (some head) cells none) (hfuel : cells.length < fuel) :
    ∃ result, visitCells heap visit fuel head state = some result := by
  induction cells generalizing head fuel state with
  | nil => exact absurd hchain (by simp)
  | cons cell cells ih =>
      obtain ⟨less, rfl⟩ := Nat.exists_eq_add_one.mpr (Nat.zero_lt_of_lt hfuel)
      obtain ⟨hhead, next, hcell, hrest⟩ := hchain
      obtain rfl := Option.some.inj hhead
      simp only [visitCells, hcell, Option.bind_eq_bind, Option.bind_some]
      split_ifs with hleave
      · exact ⟨_, rfl⟩
      · cases next with
        | none => exact ⟨_, rfl⟩
        | some next => exact ih _ hrest (Nat.lt_of_succ_lt_succ hfuel)

/-- A visitor that never leaves sees every cell of a chain in turn. -/
theorem visitCells_spec {heap : Nat → Option (Cell α)} (visit : α → σ → Bool × σ)
    (hstay : ∀ content state, (visit content state).1 = false)
    {cells : List (Nat × α)} {head : Nat} {fuel : Nat} (state : σ)
    (hchain : Segment heap (some head) cells none) (hfuel : cells.length < fuel) :
    visitCells heap visit fuel head state =
      some (false, cells.foldl (fun state cell => (visit cell.2 state).2) state) := by
  induction cells generalizing head fuel state with
  | nil => exact absurd hchain (by simp)
  | cons cell cells ih =>
      obtain ⟨less, rfl⟩ := Nat.exists_eq_add_one.mpr (Nat.zero_lt_of_lt hfuel)
      obtain ⟨hhead, next, hcell, hrest⟩ := hchain
      obtain rfl := Option.some.inj hhead
      simp only [visitCells, hcell, Option.bind_eq_bind, Option.bind_some, hstay,
        Bool.false_eq_true, if_false, List.foldl_cons]
      cases next with
      | none =>
          cases cells with
          | nil => rfl
          | cons other cells => exact absurd hrest.1 (by simp)
      | some next => exact ih _ hrest (Nat.lt_of_succ_lt_succ hfuel)

/-- A chain of distinct non-null addresses below a bound is shorter than the
bound. -/
theorem length_lt_of_addresses {cells : List (Nat × α)} {bound : Nat}
    (hnodup : (cells.map Prod.fst).Nodup) (hbound : ∀ cell ∈ cells, 0 < cell.1 ∧ cell.1 < bound)
    (hpos : 0 < bound) : cells.length < bound := by
  have hsubset : 0 :: cells.map Prod.fst ⊆ List.range bound := by
    intro address hmem
    rcases List.mem_cons.mp hmem with rfl | hmem
    · exact List.mem_range.mpr hpos
    · obtain ⟨cell, hcell, rfl⟩ := List.mem_map.mp hmem
      exact List.mem_range.mpr (hbound cell hcell).2
  have hzero : 0 ∉ cells.map Prod.fst := by
    intro hmem
    obtain ⟨cell, hcell, hnull⟩ := List.mem_map.mp hmem
    exact absurd hnull (Nat.pos_iff_ne_zero.mp (hbound cell hcell).1)
  have hlength := (List.Nodup.subperm (hnodup.cons hzero) hsubset).length_le
  simpa [Nat.succ_le_iff] using hlength

end McuProxy.Memory
