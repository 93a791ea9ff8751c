/-
# The calls of the shared-memory allocator

What `shm_malloc`, `shm_free` and `shm_add_reference` do to a chunk that
satisfies the invariant. A block that goes back to `freeParts` must have room for
the two links, or become part of the free block before it: nothing in the code
checks this, so it is a condition of the lemmas here.
-/

import McuProxy.Ckits.ShmOps

namespace McuProxy.Ckits

open McuProxy.Memory

/-- A block can go back to `freeParts` without its links reaching beyond it. -/
def Recyclable (before : List Block) (block : Block) : Prop :=
  8 ≤ block.size ∨ ∃ front left, before = front ++ [left] ∧ left.isFree = true

/-- The outcome of a request for `size` bytes. -/
structure Served (mem : Mem) (chunk : ShmChunk) (least : Nat) (blocks : List Block)
    (size unit : Nat)
    (mem' : Mem) (blocks' : List Block) : Prop where
  inv : ShmInv mem' chunk least blocks'
  kept : Kept mem mem' (usedBlocks blocks)
  served_iff : unit ≠ 0 ↔ ∃ length ∈ freeRuns 0 blocks, size + 4 ≤ length
  outcome : Answered blocks blocks' unit size

section

variable {mem mem' : Mem} {chunk : ShmChunk} {least size unit : Nat}
  {blocks blocks' before after : List Block} {block : Block}

/-- A request does not notice steps that keep the blocks in use and the
stretches of free memory. -/
theorem Served.of_same {mem₀ : Mem} {blocks₀ : List Block}
    (hserved : Served mem chunk least blocks size unit mem' blocks')
    (hused : usedBlocks blocks = usedBlocks blocks₀)
    (hruns : freeRuns 0 blocks = freeRuns 0 blocks₀)
    (hkept : Kept mem₀ mem (usedBlocks blocks₀)) :
    Served mem₀ chunk least blocks₀ size unit mem' blocks' where
  inv := hserved.inv
  kept := hkept.trans (hused ▸ hserved.kept)
  served_iff := hruns ▸ hserved.served_iff
  outcome := by
    rcases hserved.outcome with ⟨hzero, hsame⟩ | ⟨granted, hunit, hgranted⟩
    · exact Or.inl ⟨hzero, hsame.trans hused⟩
    · exact Or.inr ⟨granted, hunit, hgranted.status, hgranted.room, hused ▸ hgranted.used_perm⟩

/-- With no block aside, of two neighbours one is in use. -/
theorem unused_chain (hseparate : Separate blocks) (hnone : NoneAside blocks) :
    blocks.IsChain fun first second => first.isUsed = true ∨ second.isUsed = true := by
  refine List.IsChain.imp_of_mem_imp ?_ hseparate
  intro first second hfirst hsecond hjoint
  by_cases hfree : first.isFree = true
  · exact Or.inr (isUsed_of_held (hnone second hsecond) (hjoint hfree))
  · exact Or.inl (isUsed_of_held (hnone first hfirst) (by simpa using hfree))

/-- With no block aside, the largest free block bounds every stretch of free
memory. -/
theorem run_le_of_largest (hseparate : Separate blocks) (hnone : NoneAside blocks) (bound : Nat)
    (hbound : ∀ block ∈ blocks, block.isFree = true → block.size < bound) :
    ¬ ∃ length ∈ freeRuns 0 blocks, bound + 4 ≤ length := by
  rintro ⟨length, hlength, hle⟩
  obtain ⟨block, hblock, hunused, rfl⟩ := exists_block_of_run (unused_chain hseparate hnone) hlength
  have hfree : block.isFree = true := by
    by_contra hheld
    have hused := isUsed_of_held (hnone block hblock) (by simpa using hheld)
    simp [hunused] at hused
  have hlt := hbound block hblock hfree
  omega

/-- The candidate is large enough. -/
theorem served_take (hleast : least ≤ (size + 3) / 4 * 4) (hleast8 : least ≤ 8)
    (hcore : ShmCore mem chunk least (before ++ block :: after)) (hstatus : block.status = .spare)
    (hword : load32 mem (candiateAt chunk.start) = block.addr - chunk.start)
    (hothers : NoneAside (before ++ after)) (hfit : size ≤ block.size) (health : Nat) :
    ∃ unit mem' blocks', shmMallocLoop chunk.start size health mem = some (unit, mem') ∧
      Served mem chunk least (before ++ block :: after) size unit mem' blocks' := by
  obtain ⟨mem', blocks', granted, hloop, hinv, haddr, hgranted, hkept⟩ :=
    shmMallocLoop_take hleast hleast8 hcore hstatus hword hothers hfit health
  refine ⟨block.link, mem', blocks', hloop, hinv, hkept, ?_, Or.inr ⟨granted, ?_, hgranted⟩⟩
  · obtain ⟨length, hlength, hle⟩ := exists_run_ge
      (show block ∈ before ++ block :: after by simp) (isUsed_of_spare hstatus) 0
    have hlink : block.link ≠ 0 := by simp [Block.link]
    exact iff_of_true hlink ⟨length, hlength, by omega⟩
  · simp [Block.link, haddr]

/-- A request when no block is aside: the largest free block is harvested, and
serves the request or there is nothing that does. -/
theorem served_harvest (hcore : ShmCore mem chunk least blocks) (hnone : NoneAside blocks)
    (hpos : 0 < least) (hleast : least ≤ (size + 3) / 4 * 4) (hleast8 : least ≤ 8) :
    ∃ unit mem' blocks',
      ((shmHarvest mem chunk.start).bind fun mem => shmMallocLoop chunk.start size 0 mem) =
        some (unit, mem') ∧
      Served mem chunk least blocks size unit mem' blocks' := by
  obtain ⟨mem₁, blocks₁, hharvest, hinv, hused, hruns, hkept, hresult⟩ :=
    shmHarvest_spec hcore hnone hpos
  rw [hharvest, Option.bind_some]
  rcases hresult with ⟨hword, hheld⟩ | ⟨before, block, after, rfl, hfree, rfl, hword, hlargest⟩
  · have hloop : shmMallocLoop chunk.start size 0 mem₁ = some (0, mem₁) := by
      rw [shmMallocLoop.eq_def]
      dsimp only
      rw [if_pos hword]
    have hnoRun := run_le_of_largest hcore.separate hnone size
      fun block hblock hfree => absurd hfree (by simp [hheld block hblock])
    exact ⟨0, mem₁, blocks₁, hloop, hinv, hkept, iff_of_false (by simp) hnoRun, Or.inl ⟨rfl, hused⟩⟩
  · have hothers : NoneAside (before ++ after) := by
      rw [NoneAside, List.forall_mem_append, List.forall_mem_cons] at hnone
      rw [NoneAside, List.forall_mem_append]
      exact ⟨hnone.1, hnone.2.2⟩
    by_cases hfit : size ≤ (setAside block).size
    · obtain ⟨unit, mem', blocks', hloop, hserved⟩ := served_take hleast hleast8
        hinv.toShmCore rfl hword hothers hfit 0
      exact ⟨unit, mem', blocks', hloop, hserved.of_same hused hruns hkept⟩
    · obtain ⟨hword', hnode, hheader, _⟩ :=
        candidate_reads hinv.toShmCore rfl hword
      have hloop : shmMallocLoop chunk.start size 0 mem₁ = some (0, mem₁) := by
        rw [shmMallocLoop.eq_def]
        dsimp only
        rw [if_neg hword', hnode, hheader, if_neg hfit]
      have hnoRun := run_le_of_largest hcore.separate hnone size
        fun other hother hotherFree =>
          (hlargest other hother hotherFree).trans_lt (not_le.mp hfit)
      exact ⟨0, mem₁, _, hloop, hinv, hkept, iff_of_false (by simp) hnoRun, Or.inl ⟨rfl, hused⟩⟩

/-- The candidate is too small: it is recycled, and the largest free block after
that is tried. -/
theorem served_recycle (hpos : 0 < least) (hleast : least ≤ (size + 3) / 4 * 4)
    (hleast8 : least ≤ 8)
    (hcore : ShmCore mem chunk least (before ++ block :: after)) (hstatus : block.status = .spare)
    (hword : load32 mem (candiateAt chunk.start) = block.addr - chunk.start)
    (hothers : NoneAside (before ++ after)) (hsmall : ¬ size ≤ block.size)
    (hroom : Recyclable before block) :
    ∃ unit mem' blocks', shmMallocLoop chunk.start size 1 mem = some (unit, mem') ∧
      Served mem chunk least (before ++ block :: after) size unit mem' blocks' := by
  obtain ⟨hword', hnode, hheader, _⟩ := candidate_reads hcore hstatus hword
  let taken : Block := { block with status := .used 0 }
  have hheld := held_of_spare hstatus
  have htag : taken.tag = block.tag := by
    rw [Block.tag_eq_size (Or.inr hstatus)]
    rfl
  -- The candidate word is cleared, and the block belongs to nobody for a moment.
  have hcleared := hcore.store_candidate 0
  have hheap := hcleared.heap.relabel taken rfl rfl hheld rfl htag
  have hnodes : freeLinks (before ++ taken :: after) = freeLinks (before ++ block :: after) := by
    rw [freeLinks_middle_held hheld]
    exact freeLinks_middle_held rfl
  rw [← hnodes] at hheap
  obtain ⟨hbeforeSep, hafterSep⟩ := hcore.separate.parts
  have hcore' := hcleared.of_frame (Frame.refl _ _ []) hheap
    (hbeforeSep.insert_held hafterSep rfl) (hcore.sizes.exchange rfl)
    (forall_mem_exchange [taken] hcore.refs_le (by simp [taken]))
  obtain ⟨mem₁, blocks₁, hrecycle, hcore₁, hspare, _, hused, hruns, hkept, -⟩ :=
    recycle_core hcore' rfl hroom
  have hnone : NoneAside blocks₁ := by
    rw [← spareBlocks_eq_nil, hspare]
    exact spareBlocks_eq_nil.mpr hothers
  obtain ⟨unit, mem', blocks', hloop, hserved⟩ := served_harvest hcore₁ hnone hpos hleast hleast8
  refine ⟨unit, mem', blocks', ?_, hserved.of_same ?_ ?_ ?_⟩
  · rw [shmMallocLoop.eq_def]
    dsimp only
    rw [if_neg hword', hnode, hheader, if_neg hsmall, hrecycle, Option.bind_some]
    exact hloop
  · rw [hused, usedBlocks_middle (isUsed_of_spare hstatus)]
  · have hsame : setAside taken = block := by
      rw [setAside, ← hstatus]
    rw [hruns, hsame]
  · rw [usedBlocks_middle (isUsed_of_spare hstatus)]
    refine Kept.trans ?_ hkept
    intro other hother
    refine kept_store_candidate hcore.heap.tiles 0 other ?_
    have hmem := (mem_usedBlocks.mp hother).1
    simp only [List.mem_append, List.mem_cons] at hmem ⊢
    tauto

theorem badHandle_eq_false (hcore : ShmCore mem chunk least blocks) :
    badHandle mem chunk.start = false := by
  have hstart := chunk.start_pos
  have hsize := chunk.size_ge
  simp only [badHandle, hcore.magic, hcore.chunkSize, ne_eq, not_true, decide_false, Bool.or_false,
    Bool.or_eq_false_iff, decide_eq_false_iff_not]
  omega

/-- `shm_malloc` serves a request exactly when a stretch of free memory has room
for it, and leaves the blocks in use. -/
theorem shmMalloc_spec (hinv : ShmInv mem chunk least blocks) (hsize : 0 < size) (hpos : 0 < least)
    (hleast : least ≤ (size + 3) / 4 * 4) (hleast8 : least ≤ 8)
    (hroom : ∀ before block after, blocks = before ++ block :: after → block.status = .spare →
      block.size < size → Recyclable before block) :
    ∃ unit mem' blocks', shmMalloc mem chunk.start size = some (unit, mem') ∧
      Served mem chunk least blocks size unit mem' blocks' := by
  have hhandle := badHandle_eq_false hinv.toShmCore
  have hcall : shmMalloc mem chunk.start size =
      if load32 mem (candiateAt chunk.start) = 0 then
        (shmHarvest mem chunk.start).bind fun mem => shmMallocLoop chunk.start size 0 mem
      else shmMallocLoop chunk.start size 1 mem := by
    simp only [shmMalloc, hhandle, Bool.false_or, decide_eq_true_eq]
    rw [if_neg hsize.ne']
  rw [hcall]
  have hcore := hinv.toShmCore
  cases hinv.candidate with
  | none hword hnone =>
      rw [if_pos hword]
      exact served_harvest hcore hnone hpos hleast hleast8
  | @some before after block hstatus hword hothers =>
      rw [if_neg (candidate_reads hcore hstatus hword).1]
      by_cases hfit : size ≤ block.size
      · exact served_take hleast hleast8 hcore hstatus hword hothers hfit 1
      · exact served_recycle hpos hleast hleast8 hcore hstatus hword hothers hfit
          (hroom before block after rfl hstatus (by omega))

/-- The size word of a block in use: references in the low bits, size above. -/
theorem tag_fields {refs : Nat} (hsize : 4 ∣ block.size) (hstatus : block.status = .used refs)
    (hrefs : refs ≤ 3) (htag : block.tag < wordModulus) :
    block.tag = block.size + refs ∧ block.tag &&& 0xFFFFFFFC = block.size ∧
      block.tag &&& 3 = refs := by
  have heq : block.tag = block.size + refs := by simp [Block.tag, hstatus]
  refine ⟨heq, ?_, ?_⟩
  · have hmask : block.tag &&& 0xFFFFFFFC = block.tag / 4 * 4 :=
      land_mask_eq (k := 2) htag (by decide)
    rw [hmask, heq]
    omega
  · have hlow : block.tag &&& 3 = block.tag % 4 := Nat.and_two_pow_sub_one_eq_mod block.tag 2
    rw [hlow, heq]
    omega

/-- What the calls on a pointer read of its block. -/
theorem used_reads (hcore : ShmCore mem chunk least blocks) (hblock : block ∈ blocks) {refs : Nat}
    (hstatus : block.status = .used refs) :
    refs ≤ 3 ∧ block.tag < wordModulus ∧ load32 mem block.addr = block.tag := by
  have hrefs := hcore.refs_le block hblock refs hstatus
  obtain ⟨hlow, _, hhigh⟩ := block_bounds hcore.heap.tiles hblock
  refine ⟨hrefs, ?_, hcore.heap.headers block hblock⟩
  simp only [Block.tag, hstatus, Block.stop] at *
  omega

theorem badPointer_eq_false (hcore : ShmCore mem chunk least blocks) (hpos : 0 < least)
    (hblock : block ∈ blocks) {refs : Nat} (hstatus : block.status = .used refs) :
    badPointer mem chunk.start block.link = false := by
  obtain ⟨hrefs, htag, hheader⟩ := used_reads hcore hblock hstatus
  obtain ⟨hlow, hhigh, hstop⟩ := block_bounds hcore.heap.tiles hblock
  have hsizes := hcore.sizes block hblock
  obtain ⟨_, hfield, _⟩ := tag_fields hsizes.1 hstatus hrefs htag
  have htop := chunk.top_lt
  have hge := chunk.size_ge
  have hend : addrPlus (addrPlus chunk.start sizeofShmAlloc) (chunk.size - 20) =
      chunk.start + chunk.size := by
    simp only [addrPlus, sizeofShmAlloc]
    rw [Nat.mod_eq_of_lt (by omega : chunk.start + 20 < wordModulus), Nat.mod_eq_of_lt (by omega)]
    omega
  simp only [badPointer, badHandle_eq_false hcore, hcore.chunkSize, hend, link_sub, hheader, hfield,
    Bool.false_or, Bool.or_eq_false_iff, decide_eq_false_iff_not]
  simp only [Block.link, Block.stop] at *
  omega

/-- A change of the number of references that stays within its two bits. -/
theorem retag_inv {refs : Nat} (refs' : Nat)
    (hinv : ShmInv mem chunk least (before ++ block :: after))
    (hstatus : block.status = .used refs) (hrefs' : refs' ≤ 3) :
    ShmInv (store32 mem block.addr (block.size + refs')) chunk least
        (before ++ { block with status := .used refs' } :: after) ∧
      Kept mem (store32 mem block.addr (block.size + refs')) (usedBlocks (before ++ after)) := by
  have hcore := hinv.toShmCore
  have hblock : block ∈ before ++ block :: after := by simp
  obtain ⟨hlow, _, hhigh⟩ := block_bounds hcore.heap.tiles hblock
  have hheld : block.isFree = false := by simp [Block.isFree, hstatus]
  let block' : Block := { block with status := .used refs' }
  have htag : block'.tag < wordModulus := by
    simp only [Block.tag, block', Block.stop] at *
    omega
  have hheap := hcore.heap.retag block' rfl rfl hheld rfl htag
  have hnodes : freeLinks (before ++ block' :: after) = freeLinks (before ++ block :: after) := by
    rw [freeLinks_middle_held hheld]
    exact freeLinks_middle_held rfl
  rw [← hnodes] at hheap
  have hframe : Frame mem (store32 mem block.addr block'.tag) chunk.arena (before ++ after) :=
    Frame.of_store hcore.heap.tiles le_rfl (by simp only [Block.stop]; omega)
  obtain ⟨hbeforeSep, hafterSep⟩ := hcore.separate.parts
  refine ⟨⟨?_, ?_⟩, Kept.of_frame hframe fun other hother => (mem_usedBlocks.mp hother).1⟩
  · exact hcore.of_frame hframe hheap (hbeforeSep.insert_held hafterSep rfl)
      (hcore.sizes.exchange rfl)
        (forall_mem_exchange [block'] hcore.refs_le (by simp [block', hrefs']))
  · have hspare : spareBlocks (before ++ block' :: after) =
      spareBlocks (before ++ block :: after) := by
      simp [spareBlocks, block', hstatus]
    have hword : load32 (store32 mem block.addr block'.tag) (candiateAt chunk.start) =
        load32 mem (candiateAt chunk.start) := frame_word hframe (by omega) (by omega)
    have hcandidate := candidate_iff.mp hinv.candidate
    rw [← hspare, ← hword] at hcandidate
    exact candidate_iff.mpr hcandidate

/-- `shm_add_reference` of a block in use: one more reference, up to three. -/
theorem shmAddReference_spec {refs : Nat}
    (hinv : ShmInv mem chunk least (before ++ block :: after)) (hpos : 0 < least)
    (hstatus : block.status = .used refs) :
    (3 ≤ refs ∧ shmAddReference mem chunk.start block.link = (-1, mem)) ∨
      refs < 3 ∧ ∃ mem', shmAddReference mem chunk.start block.link = (0, mem') ∧
        ShmInv mem' chunk least (before ++ { block with status := .used (refs + 1) } :: after) ∧
        Kept mem mem' (usedBlocks (before ++ after)) := by
  have hcore := hinv.toShmCore
  have hblock : block ∈ before ++ block :: after := by simp
  obtain ⟨hrefs, htag, hheader⟩ := used_reads hcore hblock hstatus
  obtain ⟨htagEq, hfield, _⟩ := tag_fields (hcore.sizes block hblock).1 hstatus hrefs htag
  have hround : (block.size + 3) % wordModulus = block.size + 3 := by
    obtain ⟨hlow, _, hhigh⟩ := block_bounds hcore.heap.tiles hblock
    apply Nat.mod_eq_of_lt
    simp only [Block.stop] at hhigh
    omega
  have hcall : shmAddReference mem chunk.start block.link =
      if block.size + 3 ≤ block.tag then (-1, mem)
      else (0, store32 mem block.addr (block.tag + 1)) := by
    simp only [shmAddReference, badPointer_eq_false hcore hpos hblock hstatus, Bool.false_eq_true,
      if_false, link_sub, hheader, hfield, hround]
  rw [hcall, htagEq]
  split
  · rename_i hle
    exact Or.inl ⟨by omega, rfl⟩
  · rename_i hlt
    exact Or.inr ⟨by omega, _, rfl, retag_inv (refs + 1) hinv hstatus (by omega)⟩

/-- `shm_free` of a block with more than one reference. -/
theorem shmFree_reference {refs : Nat} (hinv : ShmInv mem chunk least (before ++ block :: after))
    (hpos : 0 < least) (hstatus : block.status = .used (refs + 1)) :
    ∃ mem', shmFree mem chunk.start block.link = some mem' ∧
      ShmInv mem' chunk least (before ++ { block with status := .used refs } :: after) ∧
      Kept mem mem' (usedBlocks (before ++ after)) := by
  have hcore := hinv.toShmCore
  have hblock : block ∈ before ++ block :: after := by simp
  obtain ⟨hrefs, htag, hheader⟩ := used_reads hcore hblock hstatus
  obtain ⟨htagEq, _, hfield⟩ := tag_fields (hcore.sizes block hblock).1 hstatus hrefs htag
  have hcall : shmFree mem chunk.start block.link =
      some (store32 mem block.addr (block.size + refs)) := by
    simp only [shmFree, badPointer_eq_false hcore hpos hblock hstatus, Bool.false_eq_true, if_false,
      link_sub, hheader, hfield]
    rw [if_pos (by omega), htagEq]
    rfl
  exact ⟨_, hcall, retag_inv refs hinv hstatus (by omega)⟩

/-- `shm_free` of the last reference to a block. -/
theorem shmFree_last (hinv : ShmInv mem chunk least (before ++ block :: after)) (hpos : 0 < least)
    (hstatus : block.status = .used 0) (hroom : Recyclable before block) :
    ∃ mem' blocks', shmFree mem chunk.start block.link = some mem' ∧
      ShmInv mem' chunk least blocks' ∧ usedBlocks blocks' = usedBlocks (before ++ after) ∧
      Kept mem mem' (usedBlocks (before ++ after)) ∧
      ∃ owner ∈ blocks', owner.isFree = true ∧ owner.addr ≤ block.addr ∧
        block.stop ≤ owner.stop := by
  have hcore := hinv.toShmCore
  have hblock : block ∈ before ++ block :: after := by simp
  obtain ⟨hrefs, htag, hheader⟩ := used_reads hcore hblock hstatus
  obtain ⟨htagEq, _, hfield⟩ := tag_fields (hcore.sizes block hblock).1 hstatus hrefs htag
  have hcall : shmFree mem chunk.start block.link = shmRecycle mem chunk.start block.addr := by
    simp only [shmFree, badPointer_eq_false hcore hpos hblock hstatus, Bool.false_eq_true, if_false,
      link_sub, hheader, hfield]
    rw [if_neg (by simp)]
  obtain ⟨mem', blocks', hrecycle, hcore', hspare, hword, hused, _, hkept, hcover⟩ :=
    recycle_core hcore hstatus hroom
  refine ⟨mem', blocks', hcall.trans hrecycle, ⟨hcore', ?_⟩, hused, hkept, hcover⟩
  have hspare' : spareBlocks blocks' = spareBlocks (before ++ block :: after) := by
    rw [hspare]
    simp [spareBlocks, hstatus]
  have hcandidate := candidate_iff.mp hinv.candidate
  rw [← hspare', ← hword] at hcandidate
  exact candidate_iff.mpr hcandidate

/-- The invariant does not depend on the payload of a block in use. -/
theorem ShmInv.of_payload (hinv : ShmInv mem chunk least blocks)
    (hblock : block ∈ usedBlocks blocks)
    (hsame : ∀ addr, addr < block.link ∨ block.stop ≤ addr → mem' addr = mem addr) :
    ShmInv mem' chunk least blocks := by
  obtain ⟨hmem, hused⟩ := mem_usedBlocks.mp hblock
  have hheap := hinv.heap
  have hlow := (block_bounds hheap.tiles hmem).1
  have hword : ∀ n, n ≤ 16 → load32 mem' (chunk.start + n) = load32 mem (chunk.start + n) := by
    intro n hn
    apply load32_congr
    intro addr _ hlt
    apply hsame
    simp only [Block.link]
    omega
  refine ⟨⟨hheap.of_payload hmem (held_of_isUsed hused) hsame, hinv.separate, hinv.sizes,
    hinv.refs_le, ?_, ?_⟩, ?_⟩
  · exact (hword 12 (by omega)).trans hinv.magic
  · exact (hword 16 (by omega)).trans hinv.chunkSize
  · have hcandidate := candidate_iff.mp hinv.candidate
    have hkeep : load32 mem' (candiateAt chunk.start) = load32 mem (candiateAt chunk.start) :=
      hword 8 (by omega)
    rw [← hkeep] at hcandidate
    exact candidate_iff.mpr hcandidate

/-- An aligned chunk of memory that `init_shm_allocator` does not refuse. -/
theorem exists_chunk_of_accepted {memStart chunkSize : Nat} (hstart : 4 ∣ memStart)
    (hsize : 4 ∣ chunkSize) (hspace : memStart + chunkSize ≤ wordModulus)
    (haccepted : (initShmAllocator mem memStart chunkSize).1 ≠ 0) :
    ∃ chunk : ShmChunk, chunk.start = memStart ∧ chunk.size = chunkSize := by
  have htested : ¬ (memStart = 0 ∨ chunkSize ≤ 24) := by
    intro hrefused
    apply haccepted
    rw [initShmAllocator,
      if_pos (show memStart = 0 ∨ chunkSize ≤ efftsizeToPoolsize 0 + sizeofShmAlloc
      from hrefused)]
  have hend : memStart + chunkSize ≠ wordModulus := by
    intro htop
    apply haccepted
    have hzero : addrPlus memStart chunkSize = 0 := by rw [addrPlus, htop, Nat.mod_self]
    simp only [initShmAllocator, hzero, ge_iff_le, Nat.zero_le, if_true, ite_self]
  exact ⟨⟨memStart, chunkSize, by omega, hstart, hsize, by omega, by omega⟩, rfl, rfl⟩

/-- The block that `init_shm_allocator` makes of a chunk. -/
def firstBlock (chunk : ShmChunk) : Block := ⟨chunk.start + 20, chunk.size - 24, .spare⟩

/-- The memory that `init_shm_allocator` leaves. -/
def freshChunk (mem : Mem) (chunk : ShmChunk) : Mem :=
  store32 (store32 (store32 (store32 (store32 (store32 mem (chunkSizeAt chunk.start)
    (chunk.size - 20)) (chunk.start + 4) 0) chunk.start 0) (chunk.start + 20) (chunk.size - 24))
    (candiateAt chunk.start) 20) (magicFlagAt chunk.start) constMagicFlag

/-- What `init_shm_allocator` computes from an aligned chunk. -/
theorem init_reads (chunk : ShmChunk) :
    ¬ (chunk.start = 0 ∨ chunk.size ≤ efftsizeToPoolsize 0 + sizeofShmAlloc) ∧
      align4Bytes chunk.start = chunk.start ∧
      addrPlus chunk.start sizeofShmAlloc = chunk.start + 20 ∧
      addrPlus chunk.start chunk.size = chunk.start + chunk.size := by
  have hpos := chunk.start_pos
  have hge := chunk.size_ge
  have htop := chunk.top_lt
  have hdvd := chunk.start_aligned
  refine ⟨?_, ?_, ?_, ?_⟩
  · simp only [efftsizeToPoolsize, sizeofShmAlloc, wordModulus]
    omega
  · rw [align4Bytes_eq (by omega)]
    omega
  · rw [addrPlus, sizeofShmAlloc, Nat.mod_eq_of_lt (by omega)]
  · rw [addrPlus, Nat.mod_eq_of_lt htop]

/-- The handle and the memory that `init_shm_allocator` leaves when it finds room for
its header and no magic word: `base` is the aligned start. -/
theorem initShmAllocator_writes {memStart chunkSize base : Nat}
    (htested : ¬ (memStart = 0 ∨ chunkSize ≤ efftsizeToPoolsize 0 + sizeofShmAlloc))
    (halign : align4Bytes memStart = base) (htop : memStart + chunkSize < wordModulus)
    (hroom : base + 20 < memStart + chunkSize)
    (hfresh : load32 mem (magicFlagAt base) ≠ constMagicFlag) :
    initShmAllocator mem memStart chunkSize = (base,
      store32 (store32 (store32 (store32 (store32 (store32 mem (chunkSizeAt base)
        (memStart + chunkSize - (base + 20))) (base + 4) 0) base 0)
        (base + 20) (poolsizeToEfftsize (memStart + chunkSize - (base + 20))))
        (candiateAt base) 20) (magicFlagAt base) constMagicFlag) := by
  have hend : addrPlus memStart chunkSize = memStart + chunkSize := by
    rw [addrPlus, Nat.mod_eq_of_lt htop]
  have hnode : addrPlus base sizeofShmAlloc = base + 20 := by
    rw [addrPlus, sizeofShmAlloc, Nat.mod_eq_of_lt (by omega)]
  have hself : offsetPointer base base = 0 := by
    rw [offsetPointer, subWord_eq le_rfl (by omega), Nat.sub_self]
  have hcand : offsetPointer (base + 20) base = 20 := by
    rw [offsetPointer, subWord_eq (by omega) (by omega)]
    omega
  simp only [initShmAllocator]
  rw [if_neg htested, halign, hend, hnode, if_neg (by omega), if_neg hfresh, hself, hcand]

/-- `init_shm_allocator` of a chunk without the magic word. -/
theorem initShmAllocator_fresh (chunk : ShmChunk)
    (hfresh : load32 mem (magicFlagAt chunk.start) ≠ constMagicFlag) :
    initShmAllocator mem chunk.start chunk.size = (chunk.start, freshChunk mem chunk) := by
  obtain ⟨htested, halign, -, -⟩ := init_reads chunk
  have hge := chunk.size_ge
  have htop := chunk.top_lt
  have hrest : chunk.start + chunk.size - (chunk.start + 20) = chunk.size - 20 := by omega
  have hblockSize : poolsizeToEfftsize (chunk.size - 20) = chunk.size - 24 := by
    rw [poolsizeToEfftsize, subWord_eq (by omega) (by omega)]
    omega
  rw [initShmAllocator_writes htested halign htop (by omega) hfresh, hrest, hblockSize]
  rfl

/-- `init_shm_allocator` of a chunk that is in use already. -/
theorem initShmAllocator_attach (hcore : ShmCore mem chunk least blocks) :
    initShmAllocator mem chunk.start chunk.size = (chunk.start, mem) := by
  obtain ⟨htested, halign, hnode, hend⟩ := init_reads chunk
  have hge := chunk.size_ge
  simp only [initShmAllocator]
  rw [if_neg htested, halign, hnode, hend, if_neg (by omega), if_pos hcore.magic]

/-- The words of a fresh chunk. -/
theorem freshChunk_words (mem : Mem) (chunk : ShmChunk) :
    load32 (freshChunk mem chunk) chunk.start = 0 ∧
      load32 (freshChunk mem chunk) (chunk.start + 4) = 0 ∧
      load32 (freshChunk mem chunk) (candiateAt chunk.start) = 20 ∧
      load32 (freshChunk mem chunk) (magicFlagAt chunk.start) = constMagicFlag ∧
      load32 (freshChunk mem chunk) (chunkSizeAt chunk.start) = chunk.size - 20 ∧
      load32 (freshChunk mem chunk) (chunk.start + 20) = chunk.size - 24 := by
  have htop := chunk.top_lt
  have hsize : (chunk.size - 20) % wordModulus = chunk.size - 20 := Nat.mod_eq_of_lt (by omega)
  have hblock : (chunk.size - 24) % wordModulus = chunk.size - 24 := Nat.mod_eq_of_lt (by omega)
  simp only [freshChunk, candiateAt, magicFlagAt, chunkSizeAt]
  simp (disch := (simp only [Apart]; omega)) only [load32_store32_same,
    load32_store32_of_apart, hsize, hblock]
  exact ⟨rfl, rfl, rfl, rfl, trivial, trivial⟩

/-- A fresh chunk is one block, set aside. -/
theorem freshChunk_inv (mem : Mem) (chunk : ShmChunk) (hleast : least ≤ chunk.size - 24) :
    ShmInv (freshChunk mem chunk) chunk least [firstBlock chunk] := by
  obtain ⟨hnext, hprev, hcandiate, hmagic, hchunkSize, hheader⟩ := freshChunk_words mem chunk
  have hge := chunk.size_ge
  have htop := chunk.top_lt
  have haligned := chunk.size_aligned
  have htiles : Tiles chunk.arena.low [firstBlock chunk] chunk.arena.high := by
    refine ⟨rfl, ?_⟩
    simp only [Block.stop, firstBlock, Tiles, ShmChunk.arena]
    omega
  have hheap : Heap (freshChunk mem chunk) chunk.arena [firstBlock chunk] [] := by
    refine ⟨⟨htiles, by simp [firstBlock, Block.isFree], List.Perm.refl _⟩, ?_, ?_⟩
    · simpa [firstBlock, Block.tag] using hheader
    · refine ⟨⟨?_, ?_⟩, trivial⟩
      · simp only [nextOf, offsetNode, ShmChunk.arena, hnext]
        exact Nat.mod_eq_of_lt (by omega)
      · simp only [prevOf, offsetNode, ShmChunk.arena, hprev]
        exact Nat.mod_eq_of_lt (by omega)
  have hsizes : SizesOk least [firstBlock chunk] := by
    simp only [SizesOk, List.forall_mem_singleton, firstBlock]
    omega
  refine ⟨⟨hheap, List.isChain_singleton _, hsizes, by simp [firstBlock], hmagic, hchunkSize⟩, ?_⟩
  refine candidate_iff.mpr (Or.inr ⟨firstBlock chunk, rfl, ?_⟩)
  rw [hcandiate]
  simp only [firstBlock]
  omega

end

end McuProxy.Ckits
