/-
# Blocks

An interval of memory is cut into blocks without gaps. A block starts with a
word that records its size, followed by the payload. This module is about lists
of blocks alone: tilings of an interval, the free blocks and the blocks in use,
and the stretches of free memory. How memory stores blocks is the subject of
`BlockHeap`.
-/

import Mathlib.Data.List.Chain
import Mathlib.Tactic

namespace McuProxy.Memory

/-- What a block is for: on the free list, set aside by the allocator, or handed
out, with a number of additional references. -/
inductive Status
  | free
  | spare
  | used (refs : Nat)
  deriving DecidableEq, Repr

structure Block where
  addr : Nat
  size : Nat
  status : Status
  deriving DecidableEq, Repr

namespace Block

/-- The payload, and the list object of a free block. -/
def link (block : Block) : Nat := block.addr + 4

/-- The first address behind the block. -/
def stop (block : Block) : Nat := block.addr + 4 + block.size

def isFree (block : Block) : Bool := block.status = .free

/-- The word in front of the payload: the size, and in its low bits the
additional references. -/
def tag (block : Block) : Nat :=
  match block.status with
  | .used refs => block.size + refs
  | _ => block.size

def isUsed (block : Block) : Bool :=
  match block.status with
  | .used _ => true
  | _ => false

theorem tag_eq_size {block : Block} (hstatus : block.status = .free ∨ block.status = .spare) :
    block.tag = block.size := by
  rcases hstatus with h | h <;> simp [tag, h]

end Block

section

variable {block : Block} {blocks before after : List Block}

theorem tag_of_free (hfree : block.isFree = true) : block.tag = block.size :=
  Block.tag_eq_size (Or.inl (by simpa [Block.isFree] using hfree))

theorem tag_of_used (hstatus : block.status = .used 0) : block.tag = block.size := by
  simp [Block.tag, hstatus]

theorem held_of_used (hstatus : block.status = .used 0) : block.isFree = false := by
  simp [Block.isFree, hstatus]

theorem link_sub (block : Block) : block.link - 4 = block.addr := by
  simp [Block.link]

theorem isUsed_of_free (hfree : block.isFree = true) : block.isUsed = false := by
  have hstatus : block.status = .free := by simpa [Block.isFree] using hfree
  simp [Block.isUsed, hstatus]

theorem held_of_isUsed (hused : block.isUsed = true) : block.isFree = false := by
  by_contra hfree
  simp [isUsed_of_free (by simpa using hfree)] at hused

theorem held_of_spare (hstatus : block.status = .spare) : block.isFree = false := by
  simp [Block.isFree, hstatus]

theorem isUsed_of_spare (hstatus : block.status = .spare) : block.isUsed = false := by
  simp [Block.isUsed, hstatus]

theorem isUsed_of_held (haside : block.status ≠ .spare) (hheld : block.isFree = false) :
    block.isUsed = true := by
  cases hstatus : block.status with
  | free => simp [Block.isFree, hstatus] at hheld
  | spare => exact absurd hstatus haside
  | used refs => simp [Block.isUsed, hstatus]

theorem exists_refs (hused : block.isUsed = true) :
    ∃ refs, block.status = .used refs := by
  cases hstatus : block.status with
  | free => simp [Block.isUsed, hstatus] at hused
  | spare => simp [Block.isUsed, hstatus] at hused
  | used refs => exact ⟨refs, rfl⟩

theorem size_le_tag (block : Block) : block.size ≤ block.tag := by
  unfold Block.tag
  split <;> omega

/-- The blocks cover the interval from `low` to `high` without gaps. -/
def Tiles : Nat → List Block → Nat → Prop
  | low, [], high => low = high
  | low, block :: blocks, high => block.addr = low ∧ Tiles block.stop blocks high

theorem tiles_append {low high : Nat} {first second : List Block} :
    Tiles low (first ++ second) high ↔ ∃ mid, Tiles low first mid ∧ Tiles mid second high := by
  induction first generalizing low with
  | nil => simp [Tiles]
  | cons block first ih => simp [Tiles, ih, and_assoc]

theorem tiles_middle {low high : Nat} {before after : List Block} {block : Block} :
    Tiles low (before ++ block :: after) high ↔
      Tiles low before block.addr ∧ Tiles block.stop after high := by
  rw [tiles_append]
  constructor
  · rintro ⟨mid, hbefore, rfl, hafter⟩
    exact ⟨hbefore, hafter⟩
  · rintro ⟨hbefore, hafter⟩
    exact ⟨block.addr, hbefore, rfl, hafter⟩

/-- Every block takes up at least the word for its size. -/
theorem tiles_length {low high : Nat} {blocks : List Block} (htiles : Tiles low blocks high) :
    low + 4 * blocks.length ≤ high := by
  induction blocks generalizing low with
  | nil =>
      obtain rfl := htiles
      simp
  | cons block blocks ih =>
      obtain ⟨rfl, hrest⟩ := htiles
      have hlength := ih hrest
      simp only [Block.stop, List.length_cons] at *
      omega

theorem tiles_bounds {low high : Nat} {blocks : List Block} (htiles : Tiles low blocks high)
    {block : Block} (hblock : block ∈ blocks) : low ≤ block.addr ∧ block.stop ≤ high := by
  obtain ⟨before, after, rfl⟩ := List.append_of_mem hblock
  obtain ⟨hbefore, hafter⟩ := tiles_middle.mp htiles
  have hlow := tiles_length hbefore
  have hhigh := tiles_length hafter
  exact ⟨by omega, by omega⟩

/-- A block ends before the next one starts. -/
theorem tiles_pairwise {low high : Nat} {blocks : List Block} (htiles : Tiles low blocks high) :
    blocks.Pairwise fun first second => first.stop ≤ second.addr := by
  induction blocks generalizing low with
  | nil => exact List.Pairwise.nil
  | cons block blocks ih =>
      obtain ⟨rfl, hrest⟩ := htiles
      exact List.pairwise_cons.mpr ⟨fun other hother => (tiles_bounds hrest hother).1, ih hrest⟩

/-- Two blocks of a tiling are the same or do not overlap. -/
theorem tiles_apart {low high : Nat} {blocks : List Block} (htiles : Tiles low blocks high)
    {first second : Block} (hfirst : first ∈ blocks) (hsecond : second ∈ blocks) :
    first = second ∨ first.stop ≤ second.addr ∨ second.stop ≤ first.addr := by
  have hpair : blocks.Pairwise fun first second =>
      first.stop ≤ second.addr ∨ second.stop ≤ first.addr :=
    (tiles_pairwise htiles).imp Or.inl
  have hsymm : Std.Symm fun first second : Block =>
      first.stop ≤ second.addr ∨ second.stop ≤ first.addr := ⟨fun _ _ h => h.symm⟩
  by_cases heq : first = second
  · exact Or.inl heq
  · exact Or.inr (hpair.forall hfirst hsecond heq)

/-- Of the blocks around one, those before it end where it starts, and those
after it start where it ends. -/
theorem tiles_around {low high : Nat} {before after : List Block} {block other : Block}
    (htiles : Tiles low (before ++ block :: after) high) (hother : other ∈ before ++ after) :
    other.stop ≤ block.addr ∨ block.stop ≤ other.addr := by
  obtain ⟨hbefore, hafter⟩ := tiles_middle.mp htiles
  rcases List.mem_append.mp hother with h | h
  · exact Or.inl (tiles_bounds hbefore h).2
  · exact Or.inr (tiles_bounds hafter h).1

/-- The block of a tiling that ends where the tiling does is the last one. -/
theorem concat_of_stop {low high : Nat} (htiles : Tiles low blocks high) (hblock : block ∈ blocks)
    (hstop : block.stop = high) : ∃ front, blocks = front ++ [block] := by
  obtain ⟨front, rest, rfl⟩ := List.append_of_mem hblock
  have hlength := tiles_length (tiles_middle.mp htiles).2
  have hrest : rest = [] := List.eq_nil_of_length_eq_zero (by omega)
  exact ⟨front, by rw [hrest]⟩

/-- The block of a tiling that starts where the tiling does is the first one. -/
theorem cons_of_addr {low high : Nat} (htiles : Tiles low blocks high) (hblock : block ∈ blocks)
    (haddr : block.addr = low) : ∃ rest, blocks = block :: rest := by
  obtain ⟨front, rest, rfl⟩ := List.append_of_mem hblock
  have hlength := tiles_length (tiles_middle.mp htiles).1
  have hfront : front = [] := List.eq_nil_of_length_eq_zero (by omega)
  exact ⟨rest, by rw [hfront, List.nil_append]⟩

/-- The block that ends where another starts is its left neighbour. -/
theorem left_of_stop {low high : Nat} (htiles : Tiles low (before ++ block :: after) high)
    {owner : Block} (howner : owner ∈ before ++ block :: after) (hstop : owner.stop = block.addr) :
    ∃ front, before = front ++ [owner] := by
  obtain ⟨hbefore, hafter⟩ := tiles_middle.mp htiles
  refine concat_of_stop hbefore ?_ hstop
  simp only [List.mem_append, List.mem_cons] at howner
  rcases howner with h | rfl | h
  · exact h
  · simp only [Block.stop] at hstop
    omega
  · have hlow := (tiles_bounds hafter h).1
    simp only [Block.stop] at *
    omega

/-- The block that starts where another ends is its right neighbour. -/
theorem right_of_stop {low high : Nat} (htiles : Tiles low (before ++ block :: after) high)
    {owner : Block} (howner : owner ∈ before ++ block :: after) (hstop : block.stop = owner.addr) :
    ∃ rest, after = owner :: rest := by
  obtain ⟨hbefore, hafter⟩ := tiles_middle.mp htiles
  refine cons_of_addr hafter ?_ hstop.symm
  simp only [List.mem_append, List.mem_cons] at howner
  rcases howner with h | rfl | h
  · have hhigh := (tiles_bounds hbefore h).2
    simp only [Block.stop] at *
    omega
  · simp only [Block.stop] at hstop
    omega
  · exact h

/-- The free blocks of a tiled stretch all end before an address beyond it,
unless the last block of the stretch is free. -/
theorem stop_ne_of_last_held {low high : Nat} (htiles : Tiles low blocks high)
    (hlast : ∀ front left, blocks = front ++ [left] → left.isFree = false)
    (hblock : block ∈ blocks) (hfree : block.isFree = true) :
    block.addr ≤ high ∧ block.stop ≠ high := by
  have hbounds := tiles_bounds htiles hblock
  refine ⟨by simp only [Block.stop] at hbounds; omega, ?_⟩
  intro hstop
  obtain ⟨front, rfl⟩ := concat_of_stop htiles hblock hstop
  exact absurd hfree (by simp [hlast front block rfl])

/-- The list objects of the free blocks, in address order. -/
def freeLinks (blocks : List Block) : List Nat := (blocks.filter Block.isFree).map Block.link

@[simp]
theorem freeLinks_append (first second : List Block) :
    freeLinks (first ++ second) = freeLinks first ++ freeLinks second := by
  simp [freeLinks]

theorem freeLinks_middle_free {before after : List Block} {block : Block}
    (hfree : block.isFree = true) :
    freeLinks (before ++ block :: after) =
      freeLinks before ++ block.link :: freeLinks after := by
  simp [freeLinks, hfree]

theorem freeLinks_middle_held {before after : List Block} {block : Block}
    (hheld : block.isFree = false) :
    freeLinks (before ++ block :: after) = freeLinks (before ++ after) := by
  simp [freeLinks, hheld]

theorem mem_freeLinks {blocks : List Block} {obj : Nat} :
    obj ∈ freeLinks blocks ↔ ∃ block ∈ blocks, block.isFree = true ∧ block.link = obj := by
  simp [freeLinks, and_assoc]

/-- The blocks that are handed out. -/
def usedBlocks (blocks : List Block) : List Block := blocks.filter Block.isUsed

theorem freeLinks_sorted {low high : Nat} (htiles : Tiles low blocks high) :
    (freeLinks blocks).Pairwise (· < ·) := by
  rw [freeLinks, List.pairwise_map]
  refine ((tiles_pairwise htiles).filter Block.isFree).imp ?_
  intro first second hbefore
  simp only [Block.stop, Block.link] at *
  omega

theorem mem_usedBlocks : block ∈ usedBlocks blocks ↔ block ∈ blocks ∧ block.isUsed = true :=
  List.mem_filter

theorem usedBlocks_middle (hunused : block.isUsed = false) :
    usedBlocks (before ++ block :: after) = usedBlocks (before ++ after) := by
  simp [usedBlocks, hunused]

theorem usedBlocks_split (hused : block.isUsed = true) :
    usedBlocks (before ++ block :: after) = usedBlocks before ++ block :: usedBlocks after := by
  simp [usedBlocks, hused]

/-- Blocks in use other than the one a call is about. -/
theorem mem_used_around (hused : block.isUsed = true) {other : Block}
    (hother : other ∈ usedBlocks (before ++ block :: after))
    (hne : some block.link ≠ some other.link) :
    other ∈ usedBlocks (before ++ after) := by
  rw [usedBlocks_split hused] at hother
  rcases List.mem_cons.mp (List.perm_middle.mem_iff.mp hother) with rfl | hothers
  · exact absurd rfl hne
  · simpa [usedBlocks] using hothers

/-- What holds of every block still does when one is exchanged for others of
which it holds. -/
theorem forall_mem_exchange {P : Block → Prop} (middle : List Block)
    (hold : ∀ other ∈ before ++ block :: after, P other) (hnew : ∀ other ∈ middle, P other) :
    ∀ other ∈ before ++ (middle ++ after), P other := by
  rw [List.forall_mem_append, List.forall_mem_cons] at hold
  rw [List.forall_mem_append, List.forall_mem_append]
  exact ⟨hold.1, hnew, hold.2.2⟩

/-- No two blocks of the free list are adjacent. -/
def Separate (blocks : List Block) : Prop :=
  blocks.IsChain fun first second => first.isFree = true → second.isFree = false

theorem Separate.parts (hseparate : Separate (before ++ block :: after)) :
    Separate before ∧ Separate after := by
  obtain ⟨hbefore, hafter, _⟩ := List.isChain_append.mp hseparate
  exact ⟨hbefore, hafter.tail⟩

theorem Separate.insert_held (hbefore : Separate before) (hafter : Separate after)
    (hheld : block.isFree = false) : Separate (before ++ block :: after) := by
  refine List.isChain_append.mpr ⟨hbefore, ?_, ?_⟩
  · cases after with
    | nil => exact List.isChain_singleton _
    | cons next rest =>
        exact List.isChain_cons_cons.mpr ⟨fun hfree => absurd hfree (by simp [hheld]), hafter⟩
  · intro last _ first hfirst _
    obtain rfl : block = first := by simpa using hfirst
    exact hheld

/-- No two free blocks are adjacent, as a property of any two of them. -/
theorem Separate.stop_ne {low high : Nat} (hseparate : Separate blocks)
    (htiles : Tiles low blocks high) {first second : Block} (hfirst : first ∈ blocks)
    (hsecond : second ∈ blocks) (hfree : first.isFree = true) (hfree' : second.isFree = true) :
    first.stop ≠ second.addr := by
  intro hstop
  obtain ⟨before, after, rfl⟩ := List.append_of_mem hsecond
  obtain ⟨front, rfl⟩ := left_of_stop htiles hfirst hstop
  rw [List.append_assoc] at hseparate
  have hjoint := (List.isChain_append.mp hseparate).2.1
  have hheld := (List.isChain_cons_cons.mp hjoint).1 hfree
  simp [hfree'] at hheld

/-- A free block may be cut, the first part taken and the second left free. -/
theorem Separate.cut {first second : Block} (hseparate : Separate (before ++ block :: after))
    (hfree : block.isFree = true) (hheld : first.isFree = false) :
    Separate (before ++ first :: second :: after) := by
  obtain ⟨hbefore, hrest, _⟩ := List.isChain_append.mp hseparate
  have hsecond : Separate (second :: after) := by
    cases after with
    | nil => exact List.isChain_singleton _
    | cons next after =>
        obtain ⟨hjoint, hafter⟩ := List.isChain_cons_cons.mp hrest
        exact List.isChain_cons_cons.mpr ⟨fun _ => hjoint hfree, hafter⟩
  exact Separate.insert_held hbefore hsecond hheld

/-- A free block between neighbours that are not free. -/
theorem Separate.insert_free (hbefore : Separate before) (hafter : Separate after)
    (hleft : ∀ front left, before = front ++ [left] → left.isFree = false)
    (hright : ∀ next rest, after = next :: rest → next.isFree = false) :
    Separate (before ++ block :: after) := by
  refine List.isChain_append.mpr ⟨hbefore, ?_, ?_⟩
  · cases after with
    | nil => exact List.isChain_singleton _
    | cons next rest => exact List.isChain_cons_cons.mpr ⟨fun _ => hright next rest rfl, hafter⟩
  · intro last hlast _ _ hfree
    obtain ⟨front, heq⟩ := List.getLast?_eq_some_iff.mp hlast
    exact absurd hfree (by simp [hleft front last heq])

/-- The lengths of the maximal stretches of blocks that are not handed out, the
first of which starts `run` bytes before the given blocks. -/
def freeRuns : Nat → List Block → List Nat
  | run, [] => if run = 0 then [] else [run]
  | run, block :: blocks =>
      if block.isUsed then (if run = 0 then [] else [run]) ++ freeRuns 0 blocks
      else freeRuns (run + 4 + block.size) blocks

/-- Runs depend on a stretch of blocks only through what follows from any run. -/
theorem freeRuns_middle {middle middle' : List Block}
    (hmiddle : ∀ run, freeRuns run middle = freeRuns run middle')
    (before : List Block) (run : Nat) :
    freeRuns run (before ++ middle) = freeRuns run (before ++ middle') := by
  induction before generalizing run with
  | nil => exact hmiddle run
  | cons block before ih => simp only [List.cons_append, freeRuns, ih]

/-- A run that has begun is not lost. -/
theorem exists_run_of_pos {run : Nat} (hrun : 0 < run) (blocks : List Block) :
    ∃ length ∈ freeRuns run blocks, run ≤ length := by
  induction blocks generalizing run with
  | nil => exact ⟨run, by simp [freeRuns, hrun.ne'], le_rfl⟩
  | cons block blocks ih =>
      by_cases hused : block.isUsed = true
      · exact ⟨run, by simp [freeRuns, hused, hrun.ne'], le_rfl⟩
      · obtain ⟨length, hlength, hle⟩ := @ih (run + 4 + block.size) (by omega)
        exact ⟨length, by simpa [freeRuns, hused] using hlength, by omega⟩

/-- Every block that is not handed out is part of a run. -/
theorem exists_run_ge {blocks : List Block} {block : Block} (hblock : block ∈ blocks)
    (hunused : block.isUsed = false) (run : Nat) :
    ∃ length ∈ freeRuns run blocks, 4 + block.size ≤ length := by
  induction blocks generalizing run with
  | nil => simp at hblock
  | cons first blocks ih =>
      rcases List.mem_cons.mp hblock with rfl | hrest
      · obtain ⟨length, hlength, hle⟩ := exists_run_of_pos
          (show 0 < run + 4 + block.size by omega) blocks
        exact ⟨length, by simpa [freeRuns, hunused] using hlength, by omega⟩
      · by_cases hused : first.isUsed = true
        · obtain ⟨length, hlength, hle⟩ := ih hrest 0
          exact ⟨length, by simp [freeRuns, hused, hlength], hle⟩
        · obtain ⟨length, hlength, hle⟩ := ih hrest (run + 4 + first.size)
          exact ⟨length, by simpa [freeRuns, hused] using hlength, hle⟩

/-- Where no two neighbours are both unused, a run is a single block. -/
theorem exists_block_of_run {blocks : List Block}
    (hchain : blocks.IsChain fun first second => first.isUsed = true ∨ second.isUsed = true)
    {length : Nat} (hlength : length ∈ freeRuns 0 blocks) :
    ∃ block ∈ blocks, block.isUsed = false ∧ length = 4 + block.size := by
  induction blocks with
  | nil => simp [freeRuns] at hlength
  | cons first rest ih =>
      have hlater : length ∈ freeRuns 0 rest →
          ∃ block ∈ first :: rest, block.isUsed = false ∧ length = 4 + block.size := by
        intro hmem
        obtain ⟨block, hblock, hunused, heq⟩ := ih hchain.tail hmem
        exact ⟨block, List.mem_cons_of_mem _ hblock, hunused, heq⟩
      cases hused : first.isUsed with
      | true =>
          apply hlater
          simpa [freeRuns, hused] using hlength
      | false =>
          cases rest with
          | nil =>
              have heq : length = 4 + first.size := by
                simpa [freeRuns, hused] using hlength
              exact ⟨first, List.mem_cons_self, hused, heq⟩
          | cons second rest =>
              have hsecond : second.isUsed = true := by
                simpa [hused] using (List.isChain_cons_cons.mp hchain).1
              have hcases : length = 4 + first.size ∨ length ∈ freeRuns 0 rest := by
                simpa [freeRuns, hused, hsecond] using hlength
              rcases hcases with heq | hmem
              · exact ⟨first, List.mem_cons_self, hused, heq⟩
              · apply hlater
                simpa [freeRuns, hsecond] using hmem

theorem freeRuns_exchange {block' : Block} (hsize : block'.size = block.size)
    (hused : block'.isUsed = block.isUsed) (run : Nat) :
    freeRuns run (before ++ block :: after) = freeRuns run (before ++ block' :: after) := by
  apply freeRuns_middle
  intro run
  simp only [freeRuns, hsize, hused]

end

end McuProxy.Memory
