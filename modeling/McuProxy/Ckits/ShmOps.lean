/-
# The invariant of the shared-memory allocator

A reachable chunk is a heap in which no two free blocks are adjacent, with at
most one block set aside as the candidate. `shm_harvest` sets the largest free
block aside; `shm_malloc` cuts from the candidate, and when that is too small it
recycles it and harvests again. Recycling is the only step that merges, which is
why the candidate may lie next to a free block in between.
-/

import McuProxy.Ckits.ShmHeap
import McuProxy.Memory.Accounts

namespace McuProxy.Ckits

open McuProxy.Memory

/-- The invariant except for the candidate. `least` bounds the sizes below. -/
structure ShmCore (mem : Mem) (chunk : ShmChunk) (least : Nat) (blocks : List Block) : Prop where
  heap : Heap mem chunk.arena blocks (freeLinks blocks)
  separate : Separate blocks
  sizes : SizesOk least blocks
  refs_le : ∀ block ∈ blocks, ∀ refs, block.status = .used refs → refs ≤ 3
  magic : load32 mem (magicFlagAt chunk.start) = constMagicFlag
  chunkSize : load32 mem (chunkSizeAt chunk.start) = chunk.size - 20

/-- No block is set aside. -/
def NoneAside (blocks : List Block) : Prop := ∀ block ∈ blocks, block.status ≠ .spare

/-- The candidate word of the header: 0, or the offset of the one block that is
set aside. -/
inductive Candidate (mem : Mem) (chunk : ShmChunk) : List Block → Prop
  | none {blocks : List Block} (hword : load32 mem (candiateAt chunk.start) = 0)
      (hnone : NoneAside blocks) : Candidate mem chunk blocks
  | some {before after : List Block} {block : Block} (hstatus : block.status = .spare)
      (hword : load32 mem (candiateAt chunk.start) = block.addr - chunk.start)
      (hothers : NoneAside (before ++ after)) : Candidate mem chunk (before ++ block :: after)

/-- What every reachable chunk satisfies. -/
structure ShmInv (mem : Mem) (chunk : ShmChunk) (least : Nat) (blocks : List Block) : Prop
    extends ShmCore mem chunk least blocks where
  candidate : Candidate mem chunk blocks

section

variable {mem mem' mem'' : Mem} {chunk : ShmChunk} {least : Nat}
  {blocks blocks' before after : List Block} {block : Block}

/-- Operations on the heap leave the control words of the header. -/
theorem frame_word {kept : List Block} (hframe : Frame mem mem' chunk.arena kept) {n : Nat}
    (hlow : 8 ≤ n) (hhigh : n ≤ 16) :
    load32 mem' (chunk.start + n) = load32 mem (chunk.start + n) := by
  apply load32_congr
  intro addr hle hlt
  refine hframe.outside addr (Or.inl ?_) (Or.inr ?_)
  · show addr < chunk.start + 20
    omega
  · show chunk.start + 8 ≤ addr
    omega

/-- The invariant does not depend on the candidate word. -/
theorem ShmCore.store_candidate (hcore : ShmCore mem chunk least blocks) (value : Nat) :
    ShmCore (store32 mem (candiateAt chunk.start) value) chunk least blocks where
  heap := by
    refine hcore.heap.congr ?_ ?_
    · intro block hblock
      have hlow := (block_bounds hcore.heap.tiles hblock).1
      exact store32_sameOn (by simp only [Apart, candiateAt]; omega)
    · intro obj hobj
      rcases List.mem_cons.mp hobj with rfl | hnode
      · exact store32_sameOn (by simp only [Apart, candiateAt, ShmChunk.arena]; omega)
      · obtain ⟨owner, howner, _, rfl⟩ := hcore.heap.toShape.exists_block hnode
        have hlow := (block_bounds hcore.heap.tiles howner).1
        exact store32_sameOn (by simp only [Apart, candiateAt, Block.link]; omega)
  separate := hcore.separate
  sizes := hcore.sizes
  refs_le := hcore.refs_le
  magic := by
    rw [load32_store32_of_apart (by simp only [Apart, candiateAt, magicFlagAt]; omega)]
    exact hcore.magic
  chunkSize := by
    rw [load32_store32_of_apart (by simp only [Apart, candiateAt, chunkSizeAt]; omega)]
    exact hcore.chunkSize

/-- The invariant after an operation on the heap. -/
theorem ShmCore.of_frame (hcore : ShmCore mem chunk least blocks) {kept : List Block}
    (hframe : Frame mem mem' chunk.arena kept)
    (hheap : Heap mem' chunk.arena blocks' (freeLinks blocks')) (hseparate : Separate blocks')
    (hsizes : SizesOk least blocks')
    (hrefs : ∀ block ∈ blocks', ∀ refs, block.status = .used refs → refs ≤ 3) :
    ShmCore mem' chunk least blocks' where
  heap := hheap
  separate := hseparate
  sizes := hsizes
  refs_le := hrefs
  magic := (frame_word hframe (by omega) (by omega)).trans hcore.magic
  chunkSize := (frame_word hframe (by omega) (by omega)).trans hcore.chunkSize

theorem SizesOk.exchange (hsizes : SizesOk least (before ++ block :: after)) {block' : Block}
    (hsize : block'.size = block.size) : SizesOk least (before ++ block' :: after) := by
  intro other hother
  simp only [List.mem_append, List.mem_cons] at hother
  rcases hother with h | rfl | h
  · exact hsizes other (by simp [h])
  · rw [hsize]
    exact hsizes block (by simp)
  · exact hsizes other (by simp [h])

theorem kept_store_candidate (htiles : Tiles chunk.arena.low blocks chunk.arena.high)
    (value : Nat) :
    Kept mem (store32 mem (candiateAt chunk.start) value) blocks := by
  intro block hblock addr hlow _
  have hbounds := (block_bounds htiles hblock).1
  exact store32_apply (by simp only [candiateAt]; omega)

/-- Operations on the heap, and then on the candidate word, leave the used blocks. -/
theorem kept_frame_store_candidate (hcore : ShmCore mem chunk least blocks) {kept : List Block}
    (hframe : Frame mem mem' chunk.arena kept) (hused : ∀ block ∈ usedBlocks blocks, block ∈ kept)
    (value : Nat) :
    Kept mem (store32 mem' (candiateAt chunk.start) value) (usedBlocks blocks) := by
  refine (Kept.of_frame hframe hused).trans ?_
  intro block hblock
  exact kept_store_candidate hcore.heap.tiles value block (mem_usedBlocks.mp hblock).1

/-- The candidate word holds the offset that was stored there. -/
theorem load_store_candidate (mem : Mem) {addr : Nat} (hlow : chunk.start ≤ addr)
    (hhigh : addr < wordModulus) :
    load32 (store32 mem (candiateAt chunk.start) (offsetPointer addr chunk.start))
      (candiateAt chunk.start) = addr - chunk.start := by
  rw [load32_store32_same, offsetPointer, subWord_eq hlow hhigh,
    Nat.mod_eq_of_lt (lt_of_le_of_lt (Nat.sub_le _ _) hhigh)]

/-- A free block is unlinked and set aside. -/
theorem ShmCore.unlinked (hcore : ShmCore mem chunk least (before ++ block :: after))
    (hfree : block.isFree = true) :
    ShmCore (listDel mem chunk.start block.link) chunk least
        (before ++ setAside block :: after) ∧
      Frame mem (listDel mem chunk.start block.link) chunk.arena (before ++ block :: after) := by
  have hheap := hcore.heap
  rw [freeLinks_middle_free hfree] at hheap
  have haside : (setAside block).isFree = false := rfl
  obtain ⟨hunlinked, hframe⟩ := hheap.unlink (setAside block) rfl rfl hfree haside
    (tag_of_free hfree).symm
  rw [← freeLinks_append, ← freeLinks_middle_held haside] at hunlinked
  obtain ⟨hbeforeSep, hafterSep⟩ := hcore.separate.parts
  refine ⟨?_, hframe⟩
  refine hcore.of_frame hframe hunlinked (hbeforeSep.insert_held hafterSep haside)
    (hcore.sizes.exchange rfl) ?_
  exact forall_mem_exchange [setAside block] hcore.refs_le (by simp [setAside])

/-- The loop of `shm_harvest` ends with the first of the largest free blocks. -/
theorem walk_harvest (hheap : Heap mem chunk.arena blocks (freeLinks blocks)) (objs : List Nat)
    (hobjs : ∀ obj ∈ objs, obj ∈ freeLinks blocks) (state : Nat × Nat) :
    ∃ final, walk (harvestBody mem) objs state = (none, final) ∧ state.1 ≤ final.1 ∧
      (final = state ∨ ∃ largest ∈ blocks, largest.isFree = true ∧
        final = (largest.size, largest.addr)) ∧
      ∀ other ∈ blocks, other.isFree = true → other.link ∈ objs → other.size ≤ final.1 := by
  induction objs generalizing state with
  | nil => exact ⟨state, rfl, le_rfl, Or.inl rfl, by simp⟩
  | cons obj objs ih =>
      obtain ⟨owner, howner, hfree, rfl⟩ := mem_freeLinks.mp (hobjs obj List.mem_cons_self)
      have hheader := hheap.headers owner howner
      rw [tag_of_free hfree] at hheader
      have hrest : ∀ obj ∈ objs, obj ∈ freeLinks blocks := fun other hother =>
        hobjs other (List.mem_cons_of_mem _ hother)
      -- The state after this turn is at least as large as the block it looked at.
      have hturn : ∃ next, harvestBody mem owner.link state = .cont next ∧ state.1 ≤ next.1 ∧
          owner.size ≤ next.1 ∧ (next = state ∨ next = (owner.size, owner.addr)) := by
        simp only [harvestBody, link_sub, hheader]
        split
        · rename_i hlarger
          exact ⟨_, rfl, hlarger.le, le_rfl, Or.inr rfl⟩
        · rename_i hsmaller
          exact ⟨_, rfl, le_rfl, not_lt.mp hsmaller, Or.inl rfl⟩
      obtain ⟨next, hbody, hstateLe, hownerLe, hnext⟩ := hturn
      obtain ⟨final, hwalk, hle, hfinal, hall⟩ := ih hrest next
      refine ⟨final, ?_, hstateLe.trans hle, ?_, ?_⟩
      · rw [walk, hbody]
        exact hwalk
      · rcases hfinal with rfl | hlargest
        · rcases hnext with rfl | rfl
          · exact Or.inl rfl
          · exact Or.inr ⟨owner, howner, hfree, rfl⟩
        · exact Or.inr hlargest
      · intro other hother hotherFree hlink
        rcases List.mem_cons.mp hlink with heq | hmem
        · -- The same list object belongs to the same block.
          have haddr : other.addr = owner.addr := by
            simpa [Block.link] using heq
          have hsame : load32 mem other.addr = other.size := by
            rw [hheap.headers other hother, tag_of_free hotherFree]
          rw [← hsame, haddr, hheader]
          exact hownerLe.trans hle
        · exact hall other hother hotherFree hmem

/-- `shm_harvest` of a chunk without a candidate: the largest free block is set
aside, if there is a free block. -/
theorem shmHarvest_spec (hcore : ShmCore mem chunk least blocks) (hnone : NoneAside blocks)
    (hleast : 0 < least) :
    ∃ mem' blocks', shmHarvest mem chunk.start = some mem' ∧ ShmInv mem' chunk least blocks' ∧
      usedBlocks blocks' = usedBlocks blocks ∧ freeRuns 0 blocks' = freeRuns 0 blocks ∧
      Kept mem mem' (usedBlocks blocks) ∧
      ((load32 mem' (candiateAt chunk.start) = 0 ∧ ∀ block ∈ blocks, block.isFree = false) ∨
        ∃ before block after, blocks = before ++ block :: after ∧ block.isFree = true ∧
          blocks' = before ++ setAside block :: after ∧
          load32 mem' (candiateAt chunk.start) = block.addr - chunk.start ∧
          ∀ other ∈ blocks, other.isFree = true → other.size ≤ block.size) := by
  obtain ⟨final, hwalk, _, hfinal, hall⟩ :=
    walk_harvest hcore.heap (freeLinks blocks) (fun _ hobj => hobj) (0, 0)
  have hloop : listForEach (fun _ => mem) chunk.start chunk.start (harvestBody mem) (0, 0) =
      some (chunk.start, final) := by
    have heq := listForEach_readonly hcore.heap.ring hcore.heap.toShape.head_notMem
      hcore.heap.toShape.length_lt (harvestBody mem) (0, 0)
    rw [hwalk] at heq
    exact heq
  rcases hfinal with rfl | ⟨largest, hlargest, hfree, rfl⟩
  · -- A free block would have been larger than the initial maximum.
    have hheld : ∀ block ∈ blocks, block.isFree = false := by
      intro block hblock
      by_contra hfree
      have hle := hall block hblock (by simpa using hfree)
        (mem_freeLinks.mpr ⟨block, hblock, by simpa using hfree, rfl⟩)
      have hsize := (hcore.sizes block hblock).2
      simp only at hle
      omega
    have hharvest : shmHarvest mem chunk.start = some (store32 mem (candiateAt chunk.start) 0) := by
      rw [shmHarvest, hloop]
      simp
    have hword : load32 (store32 mem (candiateAt chunk.start) 0) (candiateAt chunk.start) = 0 := by
      rw [load32_store32_same]
      rfl
    refine ⟨_, blocks, hharvest, ⟨hcore.store_candidate 0, .none hword hnone⟩, rfl, rfl, ?_,
      Or.inl ⟨hword, hheld⟩⟩
    exact fun block hblock =>
      kept_store_candidate hcore.heap.tiles 0 block (mem_usedBlocks.mp hblock).1
  · obtain ⟨before, after, rfl⟩ := List.append_of_mem hlargest
    obtain ⟨hcore', hframe⟩ := hcore.unlinked hfree
    have hlow := (block_bounds hcore.heap.tiles hlargest).1
    have hhigh := (block_bounds hcore.heap.tiles hlargest).2.2
    simp only [Block.stop] at hhigh
    have hharvest : shmHarvest mem chunk.start = some (store32
        (listDel mem chunk.start largest.link) (candiateAt chunk.start)
          (offsetPointer largest.addr chunk.start)) := by
      have hsize := (hcore.sizes largest hlargest).2
      rw [shmHarvest, hloop]
      simp only [Option.map_some]
      rw [if_pos ⟨by omega, by omega⟩]
      rfl
    have hword := load_store_candidate (listDel mem chunk.start largest.link)
      (by omega : chunk.start ≤ largest.addr) (by omega)
    have hnone' : NoneAside (before ++ after) := fun block hblock => hnone block (by
      simp only [List.mem_append, List.mem_cons] at hblock ⊢
      tauto)
    have hunused := isUsed_of_free hfree
    refine ⟨_, before ++ setAside largest :: after, hharvest,
      ⟨hcore'.store_candidate _, .some rfl hword hnone'⟩, ?_, ?_,
      kept_frame_store_candidate hcore hframe (fun block hblock => (mem_usedBlocks.mp hblock).1) _,
      Or.inr ⟨before, largest, after, rfl, hfree, rfl, hword, ?_⟩⟩
    · rw [usedBlocks_middle rfl, usedBlocks_middle hunused]
    · have hsize : (setAside largest).size = largest.size := rfl
      exact (freeRuns_exchange hsize hunused.symm 0).symm
    · intro other hother hotherFree
      exact hall other hother hotherFree
        (mem_freeLinks.mpr ⟨other, hother, hotherFree, rfl⟩)

theorem align4Bytes_eq {size : Nat} (hsize : size + 3 < wordModulus) :
    align4Bytes size = (size + 3) / 4 * 4 := by
  rw [align4Bytes, Nat.mod_eq_of_lt hsize]
  exact land_mask_eq (k := 2) hsize (by decide)

/-- Rounding up stays within a size that is a multiple of four. -/
theorem align4Bytes_spec {size limit : Nat} (hlimit : 4 ∣ limit) (hle : size ≤ limit)
    (hbound : limit + 3 < wordModulus) :
    size ≤ align4Bytes size ∧ align4Bytes size ≤ limit ∧ 4 ∣ align4Bytes size ∧
      align4Bytes size < size + 4 := by
  rw [align4Bytes_eq (by omega)]
  omega

/-- What the loop of `shm_malloc` reads of the candidate. -/
theorem candidate_reads (hcore : ShmCore mem chunk least (before ++ block :: after))
    (hstatus : block.status = .spare)
    (hword : load32 mem (candiateAt chunk.start) = block.addr - chunk.start) :
    load32 mem (candiateAt chunk.start) ≠ 0 ∧
      offsetNode chunk.start (load32 mem (candiateAt chunk.start)) = block.addr ∧
      load32 mem block.addr = block.size ∧ addrPlus block.addr 4 = block.link := by
  have hblock : block ∈ before ++ block :: after := by simp
  obtain ⟨hlow, _, hhigh⟩ := block_bounds hcore.heap.tiles hblock
  have hheader := hcore.heap.headers block hblock
  rw [Block.tag_eq_size (Or.inr hstatus)] at hheader
  simp only [Block.stop] at hhigh
  refine ⟨by omega, ?_, hheader, ?_⟩
  · rw [hword, offsetNode, Nat.mod_eq_of_lt (by omega)]
    omega
  · rw [addrPlus, Nat.mod_eq_of_lt (by omega), Block.link]

/-- A spare block is cut into a used one of the given size and a spare one. -/
theorem ShmCore.cut (hcore : ShmCore mem chunk least (before ++ block :: after))
    (hstatus : block.status = .spare) {request : Nat} (hdvd : 4 ∣ request)
    (hleast : least ≤ request) (hleast8 : least ≤ 8) (hroom : request + 16 ≤ block.size) :
    let granted : Block := ⟨block.addr, request, .used 0⟩
    let rest : Block := ⟨block.addr + 4 + request, block.size - request - 4, .spare⟩
    ShmCore (store32 (store32 mem rest.addr rest.tag) block.addr granted.tag) chunk least
        (before ++ granted :: rest :: after) ∧
      Frame mem (store32 (store32 mem rest.addr rest.tag) block.addr granted.tag) chunk.arena
        (before ++ after) := by
  intro granted rest
  have hblock : block ∈ before ++ block :: after := by simp
  have hbounds := block_bounds hcore.heap.tiles hblock
  have hsizeOk := hcore.sizes block hblock
  simp only [Block.stop] at hbounds
  have hbaseTop := chunk.top_lt
  have hheld := held_of_spare hstatus
  obtain ⟨hheap, hframe⟩ := hcore.heap.split granted rest hheld rfl rfl rfl
    rfl (by simp only [Block.stop, rest]; omega) (by simp only [Block.tag, granted]; omega)
    (by simp only [Block.tag, rest]; omega)
  have hnodes : freeLinks (before ++ granted :: rest :: after) =
      freeLinks (before ++ block :: after) := by
    rw [freeLinks_middle_held hheld]
    simp [freeLinks, granted, rest, Block.isFree]
  rw [← hnodes] at hheap
  obtain ⟨hbeforeSep, hafterSep⟩ := hcore.separate.parts
  refine ⟨hcore.of_frame hframe hheap ?_ ?_ ?_, hframe⟩
  · have hright : Separate ([] ++ rest :: after) :=
      Separate.insert_held List.IsChain.nil hafterSep rfl
    exact hbeforeSep.insert_held hright rfl
  · refine forall_mem_exchange [granted, rest] hcore.sizes ?_
    simp only [List.forall_mem_cons, granted, rest]
    exact ⟨⟨hdvd, hleast⟩, ⟨by omega, by omega⟩, by simp⟩
  · exact forall_mem_exchange [granted, rest] hcore.refs_le (by simp [granted, rest])

/-- The request is cut from the candidate, and the rest is the new candidate. -/
theorem shmMallocLoop_cut {size : Nat} (hleast : least ≤ (size + 3) / 4 * 4)
    (hleast8 : least ≤ 8)
    (hcore : ShmCore mem chunk least (before ++ block :: after)) (hstatus : block.status = .spare)
    (hword : load32 mem (candiateAt chunk.start) = block.addr - chunk.start)
    (hothers : NoneAside (before ++ after)) (hfit : size ≤ block.size)
    (hsplit : block.size > (align4Bytes size + sizeofFreeShmPool) % wordModulus) (health : Nat) :
    ∃ mem' blocks' granted,
      shmMallocLoop chunk.start size health mem = some (block.link, mem') ∧
      ShmInv mem' chunk least blocks' ∧ granted.addr = block.addr ∧
      Granted (before ++ block :: after) blocks' granted size ∧
      Kept mem mem' (usedBlocks (before ++ block :: after)) := by
  have hblock : block ∈ before ++ block :: after := by simp
  obtain ⟨hlow, htop, hhigh⟩ := block_bounds hcore.heap.tiles hblock
  obtain ⟨hword', hnode, hheader, hunit⟩ := candidate_reads hcore hstatus hword
  have hsizeOk := hcore.sizes block hblock
  simp only [Block.stop] at hhigh htop
  have hbaseTop := chunk.top_lt
  have hround : size + 3 < wordModulus := by omega
  obtain ⟨halignGe, halignLe, halignDvd, halignLt⟩ :=
    align4Bytes_spec hsizeOk.1 hfit (by omega)
  have hmod : (align4Bytes size + sizeofFreeShmPool) % wordModulus = align4Bytes size + 12 := by
    apply Nat.mod_eq_of_lt
    simp only [sizeofFreeShmPool]
    omega
  have hroom : align4Bytes size + 16 ≤ block.size := by omega
  let granted : Block := ⟨block.addr, align4Bytes size, .used 0⟩
  let rest : Block := ⟨block.addr + 4 + align4Bytes size, block.size - align4Bytes size - 4, .spare⟩
  have hrestAddr : rest.addr = block.addr + 4 + align4Bytes size := rfl
  have hcut : addrPlus block.link (align4Bytes size) = rest.addr := by
    rw [addrPlus, Block.link, Nat.mod_eq_of_lt (by omega)]
  have hvalue : poolsizeToEfftsize (subWord block.size (align4Bytes size)) = rest.size := by
    rw [subWord_eq (by omega) (by omega), poolsizeToEfftsize, subWord_eq (by omega) (by omega)]
  have hgranted : least ≤ align4Bytes size := by
    rw [align4Bytes_eq hround]
    exact hleast
  obtain ⟨hcore', hframe⟩ := hcore.cut hstatus halignDvd hgranted hleast8 hroom
  have hloop : shmMallocLoop chunk.start size health mem = some (block.link,
      store32 (store32 (store32 mem rest.addr rest.tag) block.addr granted.tag)
        (candiateAt chunk.start) (offsetPointer rest.addr chunk.start)) := by
    rw [shmMallocLoop.eq_def]
    dsimp only
    rw [if_neg hword', hnode, hheader, if_pos hfit, if_pos hsplit, hunit, hcut, hvalue]
    rfl
  have hrestWord := load_store_candidate
    (store32 (store32 mem rest.addr rest.tag) block.addr granted.tag)
    (by omega : chunk.start ≤ rest.addr) (by omega)
  have hunused := isUsed_of_spare hstatus
  refine ⟨_, before ++ granted :: rest :: after, granted, hloop,
    ⟨hcore'.store_candidate _, ?_⟩, rfl, ⟨rfl, halignGe, ?_⟩, ?_⟩
  · have hsplitList : before ++ granted :: rest :: after =
        (before ++ [granted]) ++ rest :: after := by simp
    rw [hsplitList]
    refine .some rfl hrestWord ?_
    rw [List.append_assoc]
    rw [NoneAside, List.forall_mem_append] at hothers
    rw [NoneAside, List.forall_mem_append, List.forall_mem_append]
    exact ⟨hothers.1, by simp [granted], hothers.2⟩
  · rw [usedBlocks_middle hunused]
    simp only [usedBlocks, List.filter_append, List.filter_cons, granted, rest, Block.isUsed,
      if_true, Bool.false_eq_true, if_false]
    exact List.perm_middle
  · refine kept_frame_store_candidate hcore hframe ?_ _
    intro other hother
    rw [usedBlocks_middle hunused] at hother
    exact (mem_usedBlocks.mp hother).1

/-- The rest would be too small for a block: the whole candidate is handed out. -/
theorem shmMallocLoop_whole {size : Nat}
    (hcore : ShmCore mem chunk least (before ++ block :: after)) (hstatus : block.status = .spare)
    (hword : load32 mem (candiateAt chunk.start) = block.addr - chunk.start)
    (hothers : NoneAside (before ++ after)) (hfit : size ≤ block.size)
    (hsplit : ¬ block.size > (align4Bytes size + sizeofFreeShmPool) % wordModulus) (health : Nat) :
    ∃ mem' blocks' granted,
      shmMallocLoop chunk.start size health mem = some (block.link, mem') ∧
      ShmInv mem' chunk least blocks' ∧ granted.addr = block.addr ∧
      Granted (before ++ block :: after) blocks' granted size ∧
      Kept mem mem' (usedBlocks (before ++ block :: after)) := by
  obtain ⟨hword', hnode, hheader, hunit⟩ := candidate_reads hcore hstatus hword
  have hheld := held_of_spare hstatus
  let granted : Block := { block with status := .used 0 }
  have htag : granted.tag = block.tag := by
    rw [Block.tag_eq_size (Or.inr hstatus)]
    rfl
  have hheap := hcore.heap.relabel granted rfl rfl hheld rfl htag
  have hnodes : freeLinks (before ++ granted :: after) = freeLinks (before ++ block :: after) := by
    rw [freeLinks_middle_held hheld]
    exact freeLinks_middle_held rfl
  rw [← hnodes] at hheap
  have hcore' : ShmCore mem chunk least (before ++ granted :: after) := by
    obtain ⟨hbeforeSep, hafterSep⟩ := hcore.separate.parts
    exact hcore.of_frame (Frame.refl mem _ []) hheap (hbeforeSep.insert_held hafterSep rfl)
      (hcore.sizes.exchange rfl)
      (forall_mem_exchange [granted] hcore.refs_le (by simp [granted]))
  have hloop : shmMallocLoop chunk.start size health mem =
      some (block.link, store32 mem (candiateAt chunk.start) 0) := by
    rw [shmMallocLoop.eq_def]
    dsimp only
    rw [if_neg hword', hnode, hheader, if_pos hfit, if_neg hsplit, hunit]
  have hzero : load32 (store32 mem (candiateAt chunk.start) 0) (candiateAt chunk.start) = 0 := by
    rw [load32_store32_same]
    rfl
  refine ⟨_, before ++ granted :: after, granted, hloop,
    ⟨hcore'.store_candidate _, .none hzero ?_⟩, rfl, ⟨rfl, hfit, ?_⟩, ?_⟩
  · rw [NoneAside, List.forall_mem_append] at hothers
    rw [NoneAside, List.forall_mem_append, List.forall_mem_cons]
    exact ⟨hothers.1, by simp [granted], hothers.2⟩
  · rw [usedBlocks_middle (isUsed_of_spare hstatus)]
    simp only [usedBlocks, List.filter_append, List.filter_cons, granted, Block.isUsed, if_true]
    exact List.perm_middle
  · intro other hother
    exact kept_store_candidate hcore.heap.tiles _ other (mem_usedBlocks.mp hother).1

/-- A turn of the loop of `shm_malloc` that finds the candidate large enough
takes the request from it. -/
theorem shmMallocLoop_take {size : Nat} (hleast : least ≤ (size + 3) / 4 * 4)
    (hleast8 : least ≤ 8)
    (hcore : ShmCore mem chunk least (before ++ block :: after)) (hstatus : block.status = .spare)
    (hword : load32 mem (candiateAt chunk.start) = block.addr - chunk.start)
    (hothers : NoneAside (before ++ after)) (hfit : size ≤ block.size) (health : Nat) :
    ∃ mem' blocks' granted,
      shmMallocLoop chunk.start size health mem = some (block.link, mem') ∧
      ShmInv mem' chunk least blocks' ∧ granted.addr = block.addr ∧
      Granted (before ++ block :: after) blocks' granted size ∧
      Kept mem mem' (usedBlocks (before ++ block :: after)) := by
  by_cases hsplit : block.size > (align4Bytes size + sizeofFreeShmPool) % wordModulus
  · exact shmMallocLoop_cut hleast hleast8 hcore hstatus hword hothers hfit hsplit health
  · exact shmMallocLoop_whole hcore hstatus hword hothers hfit hsplit health

/-- The blocks that are set aside. -/
def spareBlocks (blocks : List Block) : List Block :=
  blocks.filter fun block => block.status = .spare

theorem spareBlocks_eq_nil : spareBlocks blocks = [] ↔ NoneAside blocks := by
  simp [spareBlocks, NoneAside]

/-- The candidate word in terms of the blocks that are set aside. -/
theorem candidate_iff : Candidate mem chunk blocks ↔
    (load32 mem (candiateAt chunk.start) = 0 ∧ spareBlocks blocks = []) ∨
      ∃ block, spareBlocks blocks = [block] ∧
        load32 mem (candiateAt chunk.start) = block.addr - chunk.start := by
  constructor
  · intro hcandidate
    cases hcandidate with
    | none hword hnone => exact Or.inl ⟨hword, spareBlocks_eq_nil.mpr hnone⟩
    | @some before after block hstatus hword hothers =>
        refine Or.inr ⟨block, ?_, hword⟩
        obtain ⟨hbefore, hafter⟩ : spareBlocks before = [] ∧ spareBlocks after = [] := by
          simpa [spareBlocks] using spareBlocks_eq_nil.mpr hothers
        simp only [spareBlocks, List.filter_append, List.filter_cons, hstatus, decide_true,
          if_true] at *
        rw [hbefore, hafter, List.nil_append]
  · rintro (⟨hword, hnone⟩ | ⟨block, hspare, hword⟩)
    · exact .none hword (spareBlocks_eq_nil.mp hnone)
    · have hmem : block ∈ spareBlocks blocks := by simp [hspare]
      obtain ⟨hblock, hstatus⟩ := List.mem_filter.mp hmem
      obtain ⟨before, after, rfl⟩ := List.append_of_mem hblock
      have hstatus' : block.status = .spare := by simpa using hstatus
      refine .some hstatus' hword (spareBlocks_eq_nil.mp ?_)
      have hlength := congrArg List.length hspare
      apply List.eq_nil_of_length_eq_zero
      simp only [spareBlocks, List.filter_append, List.filter_cons, hstatus', decide_true, if_true,
        List.length_append, List.length_cons, List.length_nil] at hlength ⊢
      omega

/-- `shm_recycle` of a block that nobody uses any more. -/
theorem recycle_core {cur : Block} (hcore : ShmCore mem chunk least (before ++ cur :: after))
    (hcur : cur.status = .used 0)
    (hroom : 8 ≤ cur.size ∨ ∃ front left, before = front ++ [left] ∧ left.isFree = true) :
    ∃ mem' blocks', shmRecycle mem chunk.start cur.addr = some mem' ∧
      ShmCore mem' chunk least blocks' ∧ spareBlocks blocks' = spareBlocks (before ++ after) ∧
      load32 mem' (candiateAt chunk.start) = load32 mem (candiateAt chunk.start) ∧
      usedBlocks blocks' = usedBlocks (before ++ after) ∧
      freeRuns 0 blocks' = freeRuns 0 (before ++ setAside cur :: after) ∧
      Kept mem mem' (usedBlocks (before ++ after)) ∧
      ∃ owner ∈ blocks', owner.isFree = true ∧ owner.addr ≤ cur.addr ∧ cur.stop ≤ owner.stop := by
  obtain ⟨mem', front, grown, hrecycle, hjoin, hheap, hframe⟩ :=
    shmRecycle_spec hcore.heap hcur hroom
  refine ⟨mem', front ++ joinRight grown after, hrecycle, ?_, ?_, ?_, ?_,
    recycled_runs hjoin 0, ?_, ?_⟩
  · refine hcore.of_frame hframe hheap (recycled_separate hjoin hcore.separate)
      (recycled_sizes hjoin hcore.sizes) ?_
    intro block hblock refs hstatus
    rcases recycled_mem hjoin hblock with hfree | hold
    · simp [Block.isFree, hstatus] at hfree
    · refine hcore.refs_le block ?_ refs hstatus
      simp only [List.mem_append, List.mem_cons] at hold ⊢
      tauto
  · refine recycled_filter hjoin ?_
    intro other hfree
    have hstatus : other.status = .free := by simpa [Block.isFree] using hfree
    simp [hstatus]
  · exact frame_word hframe (by omega) (by omega)
  · exact recycled_filter hjoin fun other hfree => isUsed_of_free hfree
  · exact Kept.of_frame hframe fun block hblock => (mem_usedBlocks.mp hblock).1
  · refine exists_cover hjoin ?_
    rintro front left rfl
    obtain ⟨hbefore, -⟩ := tiles_middle.mp hcore.heap.tiles
    exact (tiles_middle.mp hbefore).2

end

end McuProxy.Ckits
