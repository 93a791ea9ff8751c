/-
# References to blocks

Callers of an allocator hold references: a pointer together with the size that
was asked for. `Accounts` says that the references which are held are exactly
those that the blocks in use count.
-/

import McuProxy.Memory.Blocks

namespace McuProxy.Memory

/-- A reference that is held: the pointer and the size that was asked for. -/
structure Grant where
  unit : Nat
  size : Nat
  deriving DecidableEq, Repr

/-- The reference that a caller gets, if any. -/
def granted (owned : List Grant) (unit size : Nat) : List Grant :=
  if unit = 0 then owned else ⟨unit, size⟩ :: owned

/-- A block handed out for a request of `size` bytes. -/
structure Granted (blocks blocks' : List Block) (granted : Block) (size : Nat) : Prop where
  status : granted.status = .used 0
  room : size ≤ granted.size
  used_perm : (usedBlocks blocks').Perm (granted :: usedBlocks blocks)

/-- The answer to a request: the null pointer, with the blocks in use as before,
or a new block. -/
def Answered (blocks blocks' : List Block) (unit size : Nat) : Prop :=
  (unit = 0 ∧ usedBlocks blocks' = usedBlocks blocks) ∨
    ∃ granted, unit = granted.link ∧ Granted blocks blocks' granted size

/-- References that are held against blocks in use: each reference points to a
block with room for what was asked for, and each block has as many references as
its size word says. -/
structure Accounts (owned : List Grant) (used : List Block) : Prop where
  held : ∀ grant ∈ owned, ∃ block ∈ used, block.link = grant.unit ∧ grant.size ≤ block.size
  counted : ∀ block ∈ used, ∀ refs, block.status = .used refs →
    owned.countP (fun grant => grant.unit = block.link) = refs + 1

/-- Blocks with different payloads. -/
def Distinct (used : List Block) : Prop :=
  used.Pairwise fun first second => first.link ≠ second.link

section

variable {owned : List Grant} {used used' front back blocks before after : List Block}
  {block : Block} {grant : Grant} {unit : Nat}

theorem usedBlocks_distinct {low high : Nat} (htiles : Tiles low blocks high) :
    Distinct (usedBlocks blocks) := by
  refine ((tiles_pairwise htiles).filter Block.isUsed).imp ?_
  intro first second hbefore heq
  simp only [Block.stop, Block.link] at *
  omega

theorem Distinct.perm (hdistinct : Distinct used) (hperm : used.Perm used') : Distinct used' :=
  hperm.pairwise hdistinct fun h => h.symm

/-- The other blocks have other payloads. -/
theorem Distinct.around (hdistinct : Distinct (front ++ block :: back)) {other : Block}
    (hother : other ∈ front ++ back) : block.link ≠ other.link :=
  List.rel_of_pairwise_cons (hdistinct.perm List.perm_middle) hother

theorem Accounts.perm (haccounts : Accounts owned used) (hperm : used.Perm used') :
    Accounts owned used' where
  held := by
    intro grant hgrant
    obtain ⟨block, hblock, hfacts⟩ := haccounts.held grant hgrant
    exact ⟨block, hperm.mem_iff.mp hblock, hfacts⟩
  counted := fun block hblock => haccounts.counted block (hperm.mem_iff.mpr hblock)

/-- A new block comes with one reference. -/
theorem Accounts.issue (haccounts : Accounts owned used) (hdistinct : Distinct (block :: used))
    (hstatus : block.status = .used 0) {size : Nat} (hsize : size ≤ block.size) :
    Accounts (⟨block.link, size⟩ :: owned) (block :: used) where
  held := by
    rw [List.forall_mem_cons]
    refine ⟨⟨block, List.mem_cons_self, rfl, hsize⟩, ?_⟩
    intro grant hgrant
    obtain ⟨other, hother, hfacts⟩ := haccounts.held grant hgrant
    exact ⟨other, List.mem_cons_of_mem _ hother, hfacts⟩
  counted := by
    rw [List.forall_mem_cons]
    constructor
    · -- Nobody holds a reference to the block yet.
      have hnone : owned.countP (fun grant => grant.unit = block.link) = 0 := by
        rw [List.countP_eq_zero]
        intro grant hgrant
        obtain ⟨other, hother, hlink, _⟩ := haccounts.held grant hgrant
        have hne := List.rel_of_pairwise_cons hdistinct hother
        simpa [← hlink] using hne.symm
      intro refs hrefs
      obtain rfl : 0 = refs := by simpa [hstatus] using hrefs
      rw [List.countP_cons, hnone]
      simp
    · intro other hother refs hrefs
      have hne := List.rel_of_pairwise_cons hdistinct hother
      rw [List.countP_cons, haccounts.counted other hother refs hrefs]
      simp [hne]

/-- A change of one block that keeps its place. -/
theorem Accounts.held_exchange (haccounts : Accounts owned (front ++ block :: back))
    (block' : Block)
    (haddr : block'.addr = block.addr) (hsize : block'.size = block.size) :
    ∀ grant ∈ owned, ∃ other ∈ front ++ block' :: back,
      other.link = grant.unit ∧ grant.size ≤ other.size := by
  intro grant hgrant
  obtain ⟨other, hother, hlink, hle⟩ := haccounts.held grant hgrant
  simp only [List.mem_append, List.mem_cons] at hother ⊢
  rcases hother with h | rfl | h
  · exact ⟨other, Or.inl h, hlink, hle⟩
  · exact ⟨block', Or.inr (Or.inl rfl), by simpa [Block.link, haddr] using hlink, by omega⟩
  · exact ⟨other, Or.inr (Or.inr h), hlink, hle⟩

/-- One more reference to a block. -/
theorem Accounts.share {refs : Nat} (haccounts : Accounts owned (front ++ block :: back))
    (hdistinct : Distinct (front ++ block :: back)) (hstatus : block.status = .used refs)
    (hgrant : grant ∈ owned) (hunit : grant.unit = block.link) :
    Accounts (grant :: owned) (front ++ { block with status := .used (refs + 1) } :: back) where
  held := by
    have hheld := haccounts.held_exchange { block with status := .used (refs + 1) } rfl rfl
    exact List.forall_mem_cons.mpr ⟨hheld grant hgrant, hheld⟩
  counted := by
    intro other hother refs' hrefs
    rcases List.mem_cons.mp (List.perm_middle.mem_iff.mp hother) with rfl | hothers
    · obtain rfl : refs + 1 = refs' := by simpa using hrefs
      have hcount := haccounts.counted block (by simp) refs hstatus
      have hlink : Block.link { block with status := Status.used (refs + 1) } = block.link := rfl
      rw [hlink, List.countP_cons, hcount]
      simp [hunit]
    · have hne := hdistinct.around hothers
      have hmem : other ∈ front ++ block :: back :=
        List.perm_middle.mem_iff.mpr (List.mem_cons_of_mem _ hothers)
      rw [List.countP_cons, haccounts.counted other hmem refs' hrefs]
      simp [hunit, hne]

/-- Freeing removes one reference to the pointer. -/
theorem perm_eraseP (hheld : ∃ grant ∈ owned, grant.unit = unit) :
    ∃ removed, removed.unit = unit ∧
      owned.Perm (removed :: owned.eraseP fun grant => grant.unit = unit) := by
  obtain ⟨grant, hgrant, hunit⟩ := hheld
  obtain ⟨removed, first, second, _, hremoved, howned, herased⟩ :=
    List.exists_of_eraseP (p := fun grant => decide (grant.unit = unit)) hgrant
      (by simpa using hunit)
  refine ⟨removed, by simpa using hremoved, ?_⟩
  rw [herased]
  exact howned ▸ List.perm_middle

/-- One reference less to a block that keeps others. -/
theorem Accounts.release {refs : Nat} (haccounts : Accounts owned (front ++ block :: back))
    (hdistinct : Distinct (front ++ block :: back)) (hstatus : block.status = .used (refs + 1))
    (hheld : ∃ grant ∈ owned, grant.unit = block.link) :
    Accounts (owned.eraseP fun grant => grant.unit = block.link)
      (front ++ { block with status := .used refs } :: back) where
  held := by
    intro grant hgrant
    exact haccounts.held_exchange { block with status := .used refs } rfl rfl grant
      (List.mem_of_mem_eraseP hgrant)
  counted := by
    obtain ⟨removed, hunit, hperm⟩ := perm_eraseP hheld
    intro other hother refs' hrefs
    rcases List.mem_cons.mp (List.perm_middle.mem_iff.mp hother) with rfl | hothers
    · obtain rfl : refs = refs' := by simpa using hrefs
      have hcount := haccounts.counted block (by simp) (refs + 1) hstatus
      have hlink : Block.link { block with status := Status.used refs } = block.link := rfl
      rw [hperm.countP_eq, List.countP_cons] at hcount
      rw [hlink]
      simpa [hunit] using hcount
    · have hne := hdistinct.around hothers
      have hmem : other ∈ front ++ block :: back :=
        List.perm_middle.mem_iff.mpr (List.mem_cons_of_mem _ hothers)
      have hcount := haccounts.counted other hmem refs' hrefs
      rw [hperm.countP_eq, List.countP_cons] at hcount
      simpa [hunit, hne] using hcount

/-- The last reference to a block takes the block with it. -/
theorem Accounts.retire (haccounts : Accounts owned (front ++ block :: back))
    (hdistinct : Distinct (front ++ block :: back)) (hstatus : block.status = .used 0)
    (hheld : ∃ grant ∈ owned, grant.unit = block.link) :
    Accounts (owned.eraseP fun grant => grant.unit = block.link) (front ++ back) where
  held := by
    obtain ⟨removed, hunit, hperm⟩ := perm_eraseP hheld
    have hcount := haccounts.counted block (by simp) 0 hstatus
    have hnone : (owned.eraseP fun grant => grant.unit = block.link).countP
        (fun grant => grant.unit = block.link) = 0 := by
      rw [hperm.countP_eq, List.countP_cons] at hcount
      simpa [hunit] using hcount
    intro grant hgrant
    obtain ⟨other, hother, hlink, hle⟩ := haccounts.held grant (List.mem_of_mem_eraseP hgrant)
    rcases List.mem_cons.mp (List.perm_middle.mem_iff.mp hother) with rfl | hothers
    · have hnot := List.countP_eq_zero.mp hnone grant hgrant
      simp [hlink] at hnot
    · exact ⟨other, hothers, hlink, hle⟩
  counted := by
    obtain ⟨removed, hunit, hperm⟩ := perm_eraseP hheld
    intro other hothers refs' hrefs
    have hne := hdistinct.around hothers
    have hmem : other ∈ front ++ block :: back :=
      List.perm_middle.mem_iff.mpr (List.mem_cons_of_mem _ hothers)
    have hcount := haccounts.counted other hmem refs' hrefs
    rw [hperm.countP_eq, List.countP_cons] at hcount
    simpa [hunit, hne] using hcount

/-- The block of a reference that is held, and its neighbours. -/
theorem exists_block_of_held (haccounts : Accounts owned (usedBlocks blocks))
    (hheld : ∃ grant ∈ owned, grant.unit = unit) :
    ∃ before block after refs, blocks = before ++ block :: after ∧ block.status = .used refs ∧
      block.isUsed = true ∧ block.link = unit := by
  obtain ⟨grant, hgrant, rfl⟩ := hheld
  obtain ⟨block, hblock, hlink, _⟩ := haccounts.held grant hgrant
  obtain ⟨hmem, hused⟩ := mem_usedBlocks.mp hblock
  obtain ⟨refs, hstatus⟩ := exists_refs hused
  obtain ⟨before, after, rfl⟩ := List.append_of_mem hmem
  exact ⟨before, block, after, refs, rfl, hstatus, hused, hlink⟩

/-- The references after a request. -/
theorem Accounts.answered {blocks' : List Block} {low high size : Nat}
    (haccounts : Accounts owned (usedBlocks blocks)) (htiles : Tiles low blocks' high)
    (hanswered : Answered blocks blocks' unit size) :
    Accounts (granted owned unit size) (usedBlocks blocks') := by
  rcases hanswered with ⟨rfl, hused⟩ | ⟨block, rfl, hgranted⟩
  · rw [granted, if_pos rfl, hused]
    exact haccounts
  · have hdistinct := (usedBlocks_distinct htiles).perm hgranted.used_perm
    rw [granted, if_neg (by simp [Block.link])]
    exact (haccounts.issue hdistinct hgranted.status hgranted.room).perm hgranted.used_perm.symm

/-- A new block is none of those that were in use. -/
theorem Granted.apart {blocks' : List Block} {low high size : Nat} {other : Block}
    (hgranted : Granted blocks blocks' block size) (htiles : Tiles low blocks' high)
    (hother : other ∈ usedBlocks blocks) :
    block.stop ≤ other.addr ∨ other.stop ≤ block.addr := by
  have hne := List.rel_of_pairwise_cons
    ((usedBlocks_distinct htiles).perm hgranted.used_perm) hother
  have hblock := (mem_usedBlocks.mp (hgranted.used_perm.mem_iff.mpr List.mem_cons_self)).1
  have hother' := (mem_usedBlocks.mp
    (hgranted.used_perm.mem_iff.mpr (List.mem_cons_of_mem _ hother))).1
  rcases tiles_apart htiles hblock hother' with rfl | hapart
  · exact absurd rfl hne
  · exact hapart

/-- What is handed out overlaps nothing that is held. -/
theorem Answered.apart {blocks' : List Block} {low high size : Nat}
    (hanswered : Answered blocks blocks' unit size) (htiles : Tiles low blocks' high)
    (haccounts : Accounts owned (usedBlocks blocks)) (hunit : unit ≠ 0) (hgrant : grant ∈ owned) :
    unit + size ≤ grant.unit ∨ grant.unit + grant.size ≤ unit := by
  rcases hanswered with ⟨hzero, _⟩ | ⟨block, rfl, hgranted⟩
  · exact absurd hzero hunit
  · obtain ⟨other, hother, hlink, hle⟩ := haccounts.held grant hgrant
    have hapart := hgranted.apart htiles hother
    have hroom := hgranted.room
    simp only [Block.link, Block.stop] at *
    omega

/-- The memory that is held, block by block. -/
theorem Accounts.disjoint {low high : Nat} {first second : Grant}
    (haccounts : Accounts owned (usedBlocks blocks)) (htiles : Tiles low blocks high)
    (hfirst : first ∈ owned) (hsecond : second ∈ owned) (hne : first.unit ≠ second.unit) :
    first.unit + first.size ≤ second.unit ∨ second.unit + second.size ≤ first.unit := by
  obtain ⟨block, hblock, hlink, hsize⟩ := haccounts.held first hfirst
  obtain ⟨block', hblock', hlink', hsize'⟩ := haccounts.held second hsecond
  rcases tiles_apart htiles (mem_usedBlocks.mp hblock).1 (mem_usedBlocks.mp hblock').1 with
    rfl | hapart
  · exact absurd (hlink.symm.trans hlink') hne
  · simp only [Block.link, Block.stop] at *
    omega

/-- The memory that is held lies between the size words. -/
theorem Accounts.clear {low high : Nat} (haccounts : Accounts owned (usedBlocks blocks))
    (htiles : Tiles low blocks high) (hgrant : grant ∈ owned) (hblock : block ∈ blocks) :
    block.addr + 4 ≤ grant.unit ∨ grant.unit + grant.size ≤ block.addr := by
  obtain ⟨other, hother, hlink, hsize⟩ := haccounts.held grant hgrant
  rcases tiles_apart htiles (mem_usedBlocks.mp hother).1 hblock with rfl | hapart
  · simp only [Block.link] at hlink
    omega
  · simp only [Block.link, Block.stop] at *
    omega

/-- The memory that is held lies in the interval of the blocks. -/
theorem Accounts.inside {low high : Nat} (haccounts : Accounts owned (usedBlocks blocks))
    (htiles : Tiles low blocks high) (hgrant : grant ∈ owned) :
    low + 4 ≤ grant.unit ∧ grant.unit + grant.size ≤ high := by
  obtain ⟨block, hblock, hlink, hsize⟩ := haccounts.held grant hgrant
  have hbounds := tiles_bounds htiles (mem_usedBlocks.mp hblock).1
  simp only [Block.link, Block.stop] at *
  omega

/-- Exactly the payloads of the blocks in use are held. -/
theorem Accounts.held_iff (haccounts : Accounts owned (usedBlocks blocks)) :
    (∃ grant ∈ owned, grant.unit = unit) ↔ ∃ block ∈ usedBlocks blocks, block.link = unit := by
  constructor
  · rintro ⟨grant, hgrant, rfl⟩
    obtain ⟨block, hblock, hlink, _⟩ := haccounts.held grant hgrant
    exact ⟨block, hblock, hlink⟩
  · rintro ⟨block, hblock, rfl⟩
    obtain ⟨refs, hstatus⟩ := exists_refs (mem_usedBlocks.mp hblock).2
    have hcount := haccounts.counted block hblock refs hstatus
    have hpos : 0 < owned.countP fun grant => grant.unit = block.link := by omega
    obtain ⟨grant, hgrant, hunit⟩ := List.countP_pos_iff.mp hpos
    exact ⟨grant, hgrant, by simpa using hunit⟩

/-- Where blocks are not shared, every pointer is held once. -/
theorem Accounts.distinct (haccounts : Accounts owned used)
    (hsingle : ∀ block ∈ used, block.status = .used 0) :
    owned.Pairwise fun first second => first.unit ≠ second.unit := by
  rw [← List.pairwise_map, ← List.nodup_iff_pairwise_ne, List.nodup_iff_count_le_one]
  intro unit
  have hcount : (owned.map Grant.unit).count unit =
    owned.countP fun grant => grant.unit = unit := by
    rw [List.count, List.countP_map]
    exact List.countP_congr fun grant _ => by simp
  by_cases hheld : ∃ grant ∈ owned, grant.unit = unit
  · obtain ⟨grant, hgrant, rfl⟩ := hheld
    obtain ⟨block, hblock, hlink, _⟩ := haccounts.held grant hgrant
    have hone := haccounts.counted block hblock 0 (hsingle block hblock)
    rw [hlink] at hone
    omega
  · have hnone : owned.countP (fun grant => grant.unit = unit) = 0 := by
      rw [List.countP_eq_zero]
      intro grant hgrant
      simpa using fun heq => hheld ⟨grant, hgrant, heq⟩
    omega

/-- When nothing is held, no block is in use. -/
theorem Accounts.used_eq_nil (haccounts : Accounts [] (usedBlocks blocks)) :
    usedBlocks blocks = [] := by
  rw [List.eq_nil_iff_forall_not_mem]
  intro block hblock
  obtain ⟨refs, hstatus⟩ := exists_refs (mem_usedBlocks.mp hblock).2
  have hcount := haccounts.counted block hblock refs hstatus
  simp at hcount

end

end McuProxy.Memory
