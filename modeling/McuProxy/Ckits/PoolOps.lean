/-
# The functions of the pool allocator on a heap

The chunk is a heap of blocks that are free or handed out. Nothing here depends
on the order of the free list: a search finds a node that is large enough, or
there is none, and what is found is unlinked, cut and linked by the operations of
`BlockHeap`. The loop that combines blocks removes a node from the list in each
turn, which is why it ends.
-/

import McuProxy.Ckits.MyAlloc
import McuProxy.Math.SizeOrder
import McuProxy.Memory.Accounts
import McuProxy.Memory.BlockHeap

namespace McuProxy.Ckits.Pool

open McuProxy.Memory McuProxy.Math

/-- A `pool_alloc_t` and an aligned chunk that do not overlap. -/
structure PoolChunk where
  allocator : Nat
  chunkMem : Nat
  chunkSize : Nat
  allocator_pos : 0 < allocator
  allocator_le : allocator + 20 ≤ wordModulus
  chunkMem_pos : 0 < chunkMem
  aligned : 8 ∣ chunkMem
  size_ge : 12 ≤ chunkSize
  top_lt : chunkMem + chunkSize < wordModulus
  outside : Apart allocator 20 chunkMem chunkSize

/-- The heap of the chunk. -/
def PoolChunk.arena (pool : PoolChunk) : Arena where
  base := 0
  head := pool.allocator + 4
  low := pool.chunkMem
  high := pool.chunkMem + pool.chunkSize
  base_le_head := Nat.zero_le _
  base_le_low := Nat.zero_le _
  head_le := by
    have hle := pool.allocator_le
    omega
  high_le := pool.top_lt.le
  head_outside := by
    have houtside := pool.outside
    unfold Apart at houtside
    omega

/-- The members of the `pool_alloc_t` that no call changes. -/
structure Controls (mem : Mem) (pool : PoolChunk) : Prop where
  reserved : load32 mem pool.allocator = 0
  chunkMem : load32 mem (chunkMemAt pool.allocator) = pool.chunkMem
  chunkSize : load32 mem (chunkSizeAt pool.allocator) = pool.chunkSize

/-- Blocks of a pool: large enough for links, and free or handed out. -/
def Plain (blocks : List Block) : Prop :=
  ∀ block ∈ blocks, 8 ≤ block.size ∧ (block.isFree = true ∨ block.status = .used 0)

/-- What every reachable pool satisfies. -/
structure PoolInv (mem : Mem) (pool : PoolChunk) (blocks : List Block)
    (nodes : List Nat) : Prop where
  heap : Heap mem pool.arena blocks nodes
  separate : Separate blocks
  plain : Plain blocks
  controls : Controls mem pool

section

variable {mem mem' : Mem} {pool : PoolChunk} {size unit : Nat} {nodes : List Nat}
  {blocks blocks' before after : List Block} {block cur : Block}

/-- Operations on the heap leave the other members of the `pool_alloc_t`. -/
theorem Controls.of_frame (hcontrols : Controls mem pool) {kept : List Block}
    (hframe : Frame mem mem' pool.arena kept) : Controls mem' pool := by
  have hword : ∀ n, n = 0 ∨ n = 12 ∨ n = 16 →
      load32 mem' (pool.allocator + n) = load32 mem (pool.allocator + n) := by
    intro n hn
    have houtside := pool.outside
    apply load32_congr
    intro addr hle hlt
    unfold Apart at houtside
    refine hframe.outside addr ?_ ?_
    · show addr < pool.chunkMem ∨ pool.chunkMem + pool.chunkSize ≤ addr
      omega
    · show addr < pool.allocator + 4 ∨ pool.allocator + 4 + 8 ≤ addr
      omega
  exact ⟨(hword 0 (by omega)).trans hcontrols.reserved,
    (hword 12 (by omega)).trans hcontrols.chunkMem,
    (hword 16 (by omega)).trans hcontrols.chunkSize⟩

/-- Where blocks lie. The structure outside the chunk leaves room for rounding
sizes up. -/
theorem block_bounds (htiles : Tiles pool.arena.low blocks pool.arena.high)
    (hblock : block ∈ blocks) :
    pool.chunkMem ≤ block.addr ∧ block.stop ≤ pool.chunkMem + pool.chunkSize ∧
      block.size + 28 ≤ wordModulus := by
  obtain ⟨hlow, hhigh⟩ := tiles_bounds htiles hblock
  have houtside := pool.outside
  have htop := pool.top_lt
  have hle := pool.allocator_le
  have hpos := pool.allocator_pos
  have hmem := pool.chunkMem_pos
  have haligned := pool.aligned
  simp only [PoolChunk.arena, Block.stop, Apart, wordModulus] at *
  omega

/-! ## Searching -/

/-- A search goes through the nodes of the ring. -/
theorem findSlot_eq {allocator : Nat} (hring : Ring mem 0 (freeSlotsAt allocator) nodes)
    (hhead : freeSlotsAt allocator ∉ nodes) (hlength : nodes.length < loopFuel) (size : Nat) :
    findSlot mem allocator size =
      some ((nodes.find? fun obj => load32 mem (obj - 4) ≥ size).getD (freeSlotsAt allocator)) := by
  have hwalk : ∀ objs : List Nat,
      (walk (fun obj _ => if load32 mem (obj - 4) ≥ size then Flow.brk () else Flow.cont ()) objs
        ()).1 = objs.find? fun obj => load32 mem (obj - 4) ≥ size := by
    intro objs
    induction objs with
    | nil => rfl
    | cons obj objs ih =>
        by_cases hlarge : load32 mem (obj - 4) ≥ size
        · simp [walk, hlarge]
        · simpa [walk, hlarge] using ih
  rw [findSlot, listForEach_readonly hring hhead hlength, Option.map_some, hwalk]

/-- The header of a free block, seen from its list object. -/
theorem header_of_free (hheap : Heap mem pool.arena blocks nodes) (hblock : block ∈ blocks)
    (hfree : block.isFree = true) : load32 mem (block.link - 4) = block.size := by
  rw [link_sub, hheap.headers block hblock, tag_of_free hfree]

/-- The search stops at the first node that is large enough, or at the head when
there is none. -/
theorem findSlot_spec (hheap : Heap mem pool.arena blocks nodes) (size : Nat) :
    (findSlot mem pool.allocator size = some (freeSlotsAt pool.allocator) ∧
        ∀ obj ∈ nodes, load32 mem (obj - 4) < size) ∨
      ∃ pre block post, nodes = pre ++ block.link :: post ∧ block ∈ blocks ∧ block.isFree = true ∧
        size ≤ block.size ∧ (∀ obj ∈ pre, load32 mem (obj - 4) < size) ∧
        findSlot mem pool.allocator size = some block.link := by
  rw [findSlot_eq hheap.ring hheap.toShape.head_notMem hheap.toShape.length_lt]
  cases hfind : nodes.find? fun obj => load32 mem (obj - 4) ≥ size with
  | none => exact Or.inl ⟨rfl, fun obj hobj => by simpa using List.find?_eq_none.mp hfind obj hobj⟩
  | some obj =>
      obtain ⟨hlarge, pre, post, rfl, hpre⟩ := List.find?_eq_some_iff_append.mp hfind
      obtain ⟨block, hblock, hfree, rfl⟩ := hheap.toShape.exists_block
        (show obj ∈ pre ++ obj :: post by simp)
      rw [header_of_free hheap hblock hfree] at hlarge
      exact Or.inr ⟨pre, block, post, rfl, hblock, hfree, by simpa using hlarge,
        fun obj hobj => by simpa using hpre obj hobj, rfl⟩

/-- Where a search stops, the list can be cut, and an object linked there is behind
the first node that is large enough. -/
theorem findSlot_cut (hheap : Heap mem pool.arena blocks nodes) (size new : Nat) :
    ∃ pre post, nodes = pre ++ post ∧
      findSlot mem pool.allocator size = some (pre.getLastD (freeSlotsAt pool.allocator)) ∧
      pre ++ new :: post = insertBehind (fun obj => size ≤ load32 mem (obj - 4)) new nodes := by
  rcases findSlot_spec hheap size with
    ⟨hfind, hsmall⟩ | ⟨pre, block, post, rfl, hblock, hfree, hfit, hpre, hfind⟩
  · refine ⟨[], nodes, rfl, hfind, (insertBehind_of_none new fun obj hobj => ?_).symm⟩
    simpa using hsmall obj hobj
  · refine ⟨pre ++ [block.link], post, by simp, ?_, ?_⟩
    · rw [List.getLastD_concat]
      exact hfind
    · rw [insertBehind_of_split new (fun obj hobj => by simpa using hpre obj hobj)
        (by simpa [header_of_free hheap hblock hfree] using hfit)]
      simp

/-- A block that is not on the list is put on it, where a search for its size
stops. -/
theorem insert_spec (hheap : Heap mem pool.arena (before ++ block :: after) nodes)
    (hstatus : block.status = .used 0) (hroom : 8 ≤ block.size) :
    ∃ obj, findSlot mem pool.allocator (load32 mem block.addr) = some obj ∧
      Heap (listAdd mem 0 block.link obj) pool.arena
        (before ++ { block with status := .free } :: after)
        (insertBehind (fun obj => block.size ≤ load32 mem (obj - 4)) block.link nodes) ∧
      Frame mem (listAdd mem 0 block.link obj) pool.arena (before ++ after) := by
  have hheader : load32 mem block.addr = block.size :=
    (hheap.headers block (by simp)).trans (tag_of_used hstatus)
  rw [hheader]
  obtain ⟨pre, post, rfl, hfind, hplace⟩ := findSlot_cut hheap block.size block.link
  let freed : Block := { block with status := .free }
  have htag : freed.tag = block.tag := (tag_of_used hstatus).symm
  have hlinked := hheap.link freed rfl rfl hroom (held_of_used hstatus) rfl htag
  rw [← listAdd_eq hheap.ring] at hlinked
  refine ⟨_, hfind, ?_, hlinked.2⟩
  rw [← hplace]
  exact hlinked.1

/-! ## Requests -/

theorem align8Bytes_spec {size : Nat} (hsize : size + 7 < wordModulus) :
    size ≤ align8Bytes size ∧ align8Bytes size ≤ size + 7 ∧ 8 ∣ align8Bytes size := by
  have heq : align8Bytes size = (size + 7) / 8 * 8 := by
    rw [align8Bytes, Nat.mod_eq_of_lt hsize]
    exact land_mask_eq (k := 3) hsize (by decide)
  rw [heq]
  omega

theorem badAllocator_eq_false (hcontrols : Controls mem pool) :
    badAllocator mem pool.allocator = false := by
  have hpos := pool.allocator_pos
  have hmem := pool.chunkMem_pos
  have hsize := pool.size_ge
  simp only [badAllocator, hcontrols.chunkMem, hcontrols.chunkSize, Bool.or_eq_false_iff,
    decide_eq_false_iff_not]
  omega

theorem Plain.exchange (middle : List Block) (hplain : Plain (before ++ block :: after))
    (hmiddle : Plain middle) : Plain (before ++ (middle ++ after)) :=
  forall_mem_exchange middle hplain hmiddle

/-- The outcome of a request for `size` bytes. -/
structure Served (mem : Mem) (pool : PoolChunk) (blocks : List Block) (size unit : Nat) (mem' : Mem)
    (blocks' : List Block) : Prop where
  inv : ∃ nodes, PoolInv mem' pool blocks' nodes
  kept : Kept mem mem' (usedBlocks blocks)
  answer : Answered blocks blocks' unit size

/-- The node that a search found is taken off the list. -/
theorem taken_spec {pre post : List Nat}
    (hinv : PoolInv mem pool (before ++ block :: after) (pre ++ block.link :: post))
    (hfree : block.isFree = true) :
    Heap (listDel mem 0 block.link) pool.arena
        (before ++ { block with status := .used 0 } :: after) (pre ++ post) ∧
      Frame mem (listDel mem 0 block.link) pool.arena (before ++ block :: after) ∧
      load32 (listDel mem 0 block.link) block.addr = block.size := by
  let taken : Block := { block with status := .used 0 }
  have htag : taken.tag = block.tag := (tag_of_free hfree).symm
  obtain ⟨hheap, hframe⟩ := hinv.heap.unlink taken rfl rfl hfree rfl htag
  refine ⟨hheap, hframe, ?_⟩
  exact hheap.headers taken (by simp)

/-- The rest of a node is too small for a block: all of it is handed out. -/
theorem served_whole {pre post : List Nat}
    (hinv : PoolInv mem pool (before ++ block :: after) (pre ++ block.link :: post))
    (hfree : block.isFree = true) (hfit : size ≤ block.size) :
    ∃ blocks', Served mem pool (before ++ block :: after) size block.link
      (listDel mem 0 block.link) blocks' := by
  obtain ⟨hheap, hframe, _⟩ := taken_spec hinv hfree
  let taken : Block := { block with status := .used 0 }
  obtain ⟨hbefore, hafter⟩ := hinv.separate.parts
  have hroom := (hinv.plain block (by simp)).1
  have hunused := isUsed_of_free hfree
  refine ⟨before ++ taken :: after, ⟨pre ++ post, hheap, hbefore.insert_held hafter rfl, ?_,
    hinv.controls.of_frame hframe⟩, ?_, Or.inr ⟨taken, rfl, rfl, hfit, ?_⟩⟩
  · exact Plain.exchange [taken] hinv.plain (by simp [Plain, taken, hroom])
  · exact Kept.of_frame hframe fun other hother => (mem_usedBlocks.mp hother).1
  · rw [usedBlocks_middle hunused, usedBlocks_split rfl]
    simp only [usedBlocks, List.filter_append]
    exact List.perm_middle

/-- The part of a node that is handed out, and the part that stays free. -/
def frontPart (block : Block) (size : Nat) : Block := ⟨block.addr, align8Bytes size, .used 0⟩

def remainder (block : Block) (size : Nat) : Block :=
  ⟨block.link + align8Bytes size, block.size - align8Bytes size - 4, .free⟩

/-- Memory after the node is taken off the list and the sizes of its two parts are
stored. -/
def cutMem (mem : Mem) (block : Block) (size : Nat) : Mem :=
  store32 (store32 (listDel mem 0 block.link)
    (remainder block size).addr (remainder block size).size)
    block.addr (align8Bytes size)

/-- Free blocks that stay keep their headers. -/
theorem header_kept (hheap : Heap mem pool.arena blocks nodes) {nodes' : List Nat}
    (hheap' : Heap mem' pool.arena blocks' nodes') (hblock : block ∈ blocks)
    (hblock' : block ∈ blocks')
    (hfree : block.isFree = true) : load32 mem' (block.link - 4) = load32 mem (block.link - 4) := by
  rw [header_of_free hheap hblock hfree, header_of_free hheap' hblock' hfree]

/-- The other nodes of the list belong to the other blocks. -/
theorem exists_other {pre post : List Nat} {obj : Nat}
    (hheap : Heap mem pool.arena (before ++ block :: after) (pre ++ block.link :: post))
    (hobj : obj ∈ pre ++ post) :
    ∃ owner ∈ before ++ after, owner.isFree = true ∧ owner.link = obj := by
  have hmem : obj ∈ pre ++ block.link :: post := by
    simp only [List.mem_append, List.mem_cons] at hobj ⊢
    tauto
  obtain ⟨owner, howner, hfree, rfl⟩ := hheap.toShape.exists_block hmem
  refine ⟨owner, ?_, hfree, rfl⟩
  simp only [List.mem_append, List.mem_cons] at howner ⊢
  rcases howner with hbefore | rfl | hafter
  · exact Or.inl hbefore
  · -- The node itself is on the list once.
    have hnodup := (List.nodup_cons.mp hheap.toShape.placed.nodup).2
    exact absurd hobj (List.nodup_cons.mp ((List.perm_middle.nodup_iff).mp hnodup)).1
  · exact Or.inr hafter

/-- A large node is cut: the first part is handed out, the rest goes back to the
list. -/
theorem served_cut {pre post : List Nat}
    (hinv : PoolInv mem pool (before ++ block :: after) (pre ++ block.link :: post))
    (hfree : block.isFree = true) (hsize : 0 < size) (hfit : size ≤ block.size)
    (hsplit : block.size > align8Bytes size + 12) :
    ∃ obj, findSlot (cutMem mem block size) pool.allocator
        (load32 (cutMem mem block size) (remainder block size).addr) = some obj ∧
      PoolInv (listAdd (cutMem mem block size) 0 (remainder block size).link obj) pool
        (before ++ frontPart block size :: remainder block size :: after)
        (insertBehind (fun obj => (remainder block size).size ≤ load32 mem (obj - 4))
          (remainder block size).link (pre ++ post)) ∧
      Kept mem (listAdd (cutMem mem block size) 0 (remainder block size).link obj)
        (usedBlocks (before ++ block :: after)) := by
  obtain ⟨hheap, hframe, _⟩ := taken_spec hinv hfree
  obtain ⟨hlow, hhigh, hbound⟩ := block_bounds hinv.heap.tiles
    (show block ∈ before ++ block :: after by simp)
  have hround : size + 7 < wordModulus := by omega
  obtain ⟨halignGe, halignLe, halignDvd⟩ := align8Bytes_spec hround
  let rest : Block := { remainder block size with status := .used 0 }
  have hrest : rest.size = block.size - align8Bytes size - 4 := rfl
  obtain ⟨hheap₂, hframe₂⟩ :
      Heap (cutMem mem block size) pool.arena (before ++ frontPart block size :: rest :: after)
          (pre ++ post) ∧
        Frame (listDel mem 0 block.link) (cutMem mem block size) pool.arena (before ++ after) :=
    hheap.split (frontPart block size) rest rfl rfl rfl rfl rfl
      (by simp only [Block.stop, Block.link, rest, remainder]; omega)
      (by simp only [Block.tag, frontPart]; omega)
      (by simp only [Block.tag, rest, remainder]; omega)
  have hsplitList : before ++ frontPart block size :: rest :: after =
      (before ++ [frontPart block size]) ++ rest :: after := by simp
  rw [hsplitList] at hheap₂
  obtain ⟨obj, hfind, hheap₃, hframe₃⟩ := insert_spec hheap₂ rfl
    (show 8 ≤ block.size - align8Bytes size - 4 by omega)
  have hblocks : before ++ [frontPart block size] ++ { rest with status := .free } :: after =
      before ++ frontPart block size :: remainder block size :: after := by
    simp [rest, remainder]
  have hunused := isUsed_of_free hfree
  have hframeAll : Frame mem (listAdd (cutMem mem block size) 0 rest.link obj) pool.arena
      (before ++ after) := by
    refine (hframe.mono ?_).trans (hframe₂.trans (hframe₃.mono ?_))
    · intro other hother _
      simp only [List.mem_append, List.mem_cons] at hother ⊢
      tauto
    · intro other hother _
      simp only [List.mem_append, List.mem_singleton] at hother ⊢
      tauto
  -- The search compares sizes that were there before the cut.
  have hplace : insertBehind (fun obj => rest.size ≤ load32 (cutMem mem block size) (obj - 4))
      rest.link (pre ++ post) = insertBehind (fun obj => rest.size ≤ load32 mem (obj - 4)) rest.link
        (pre ++ post) := by
    refine insertBehind_congr rest.link fun other hother => ?_
    obtain ⟨owner, howner, hownerFree, rfl⟩ := exists_other hinv.heap hother
    have hold : owner ∈ before ++ block :: after := by
      simp only [List.mem_append, List.mem_cons] at howner ⊢
      tauto
    have hnew : owner ∈ before ++ [frontPart block size] ++ rest :: after := by
      simp only [List.mem_append, List.mem_cons] at howner ⊢
      tauto
    simp only [header_kept hinv.heap hheap₂ hold hnew hownerFree]
  refine ⟨obj, hfind, ⟨?_, hinv.separate.cut hfree rfl, ?_, hinv.controls.of_frame hframeAll⟩, ?_⟩
  · rw [← hblocks]
    exact hplace ▸ hheap₃
  · refine Plain.exchange [frontPart block size, remainder block size] hinv.plain ?_
    have hgranted : 8 ≤ (frontPart block size).size := show 8 ≤ align8Bytes size by omega
    have hfreed : 8 ≤ (remainder block size).size :=
      show 8 ≤ block.size - align8Bytes size - 4 by omega
    rw [Plain, List.forall_mem_cons, List.forall_mem_singleton]
    exact ⟨⟨hgranted, Or.inr rfl⟩, ⟨hfreed, Or.inl rfl⟩⟩
  · rw [usedBlocks_middle hunused]
    exact Kept.of_frame hframeAll fun other hother => (mem_usedBlocks.mp hother).1

/-- What a cut hands out. -/
theorem granted_cut (hfree : block.isFree = true) (hround : size + 7 < wordModulus) :
    Granted (before ++ block :: after)
      (before ++ frontPart block size :: remainder block size :: after)
      (frontPart block size) size := by
  refine ⟨rfl, (align8Bytes_spec hround).1, ?_⟩
  have hrest : (remainder block size).isUsed = false := rfl
  rw [usedBlocks_middle (isUsed_of_free hfree), usedBlocks_split rfl]
  simp only [usedBlocks, List.filter_append, List.filter_cons, hrest, Bool.false_eq_true, if_false]
  exact List.perm_middle

/-- The two outcomes of a request: nothing fits and nothing happens, or the first
node that is large enough is taken, and cut if it is much larger. -/
theorem poolMalloc_cases (hinv : PoolInv mem pool blocks nodes) (size : Nat) :
    (poolMalloc mem pool.allocator size = some (0, mem) ∧
        (size = 0 ∨ ∀ obj ∈ nodes, load32 mem (obj - 4) < size)) ∨
      ∃ pre block post before after, nodes = pre ++ block.link :: post ∧
        blocks = before ++ block :: after ∧ block.isFree = true ∧ 0 < size ∧ size ≤ block.size ∧
        (∀ obj ∈ pre, load32 mem (obj - 4) < size) ∧
        poolMalloc mem pool.allocator size =
          if block.size > align8Bytes size + 12 then
            (findSlot (cutMem mem block size) pool.allocator
              (load32 (cutMem mem block size) (remainder block size).addr)).map fun obj =>
                (block.link, listAdd (cutMem mem block size) 0 (remainder block size).link obj)
          else some (block.link, listDel mem 0 block.link) := by
  have hallocator := badAllocator_eq_false hinv.controls
  by_cases hsize : size = 0
  · left
    simp [poolMalloc, hsize]
  simp only [poolMalloc, hallocator, Bool.false_or, decide_eq_true_eq]
  rw [if_neg hsize]
  rcases findSlot_spec hinv.heap size with
    ⟨hfind, hsmall⟩ | ⟨pre, block, post, rfl, hblock, hfree, hfit, hpre, hfind⟩
  · -- The search stopped at the head: `size` of the node is `reserved`.
    have hhead : freeSlotsAt pool.allocator - 4 = pool.allocator := by simp [freeSlotsAt]
    refine Or.inl ⟨?_, Or.inr hsmall⟩
    rw [hfind, Option.bind_some, hhead, hinv.controls.reserved, if_neg (by omega)]
  · obtain ⟨before, after, rfl⟩ := List.append_of_mem hblock
    refine Or.inr ⟨pre, block, post, before, after, rfl, rfl, hfree, Nat.pos_of_ne_zero hsize, hfit,
      hpre, ?_⟩
    have hheader := hinv.heap.headers block hblock
    rw [tag_of_free hfree] at hheader
    obtain ⟨hlow, hhigh, hbound⟩ := block_bounds hinv.heap.tiles hblock
    obtain ⟨_, _, hload⟩ := taken_spec hinv hfree
    obtain ⟨halignGe, halignLe, _⟩ := align8Bytes_spec (show size + 7 < wordModulus by omega)
    have hmod : (align8Bytes size + sizeofFreePool) % wordModulus = align8Bytes size + 12 := by
      apply Nat.mod_eq_of_lt
      simp only [sizeofFreePool]
      omega
    have htop := pool.top_lt
    have hunit : addrPlus block.addr 4 = block.link := by
      simp only [Block.stop] at hhigh
      rw [addrPlus, Nat.mod_eq_of_lt (by omega), Block.link]
    rw [hfind, Option.bind_some, link_sub, hheader, if_pos hfit, hload, hmod, hunit]
    by_cases hsplit : block.size > align8Bytes size + 12
    · have hcut : addrPlus block.link (align8Bytes size) = block.link + align8Bytes size := by
        simp only [Block.stop, Block.link] at *
        rw [addrPlus, Nat.mod_eq_of_lt (by omega)]
      have hvalue : poolsizeToEfftsize (subWord block.size (align8Bytes size)) =
          block.size - align8Bytes size - 4 := by
        rw [subWord_eq (by omega) (by omega), poolsizeToEfftsize, subWord_eq (by omega) (by omega)]
      rw [if_pos hsplit, if_pos hsplit, hcut, hvalue]
      rfl
    · rw [if_neg hsplit, if_neg hsplit]

/-- `pool_malloc` serves a request exactly when a free block has room for it. -/
theorem poolMalloc_spec (hinv : PoolInv mem pool blocks nodes) (size : Nat) :
    ∃ unit mem' blocks', poolMalloc mem pool.allocator size = some (unit, mem') ∧
      Served mem pool blocks size unit mem' blocks' ∧
      (unit = 0 ↔ size = 0 ∨ ∀ block ∈ blocks, block.isFree = true → block.size < size) := by
  rcases poolMalloc_cases hinv size with
    ⟨hcall, hsmall⟩ | ⟨pre, block, post, before, after, rfl, rfl, hfree, hsize, hfit, -, hcall⟩
  · refine ⟨0, mem, blocks, hcall, ⟨⟨nodes, hinv⟩, Kept.refl _ _, Or.inl ⟨rfl, rfl⟩⟩,
      iff_of_true rfl (hsmall.imp_right fun hall block hblock hblockFree => ?_)⟩
    rw [← header_of_free hinv.heap hblock hblockFree]
    exact hall block.link (hinv.heap.toShape.link_mem hblock hblockFree)
  · have hblock : block ∈ before ++ block :: after := by simp
    have hanswer : block.link = 0 ↔ size = 0 ∨
        ∀ other ∈ before ++ block :: after, other.isFree = true → other.size < size := by
      refine iff_of_false (by simp [Block.link]) ?_
      rintro (hzero | hall)
      · omega
      · exact absurd (hall block hblock hfree) (not_lt.mpr hfit)
    by_cases hsplit : block.size > align8Bytes size + 12
    · obtain ⟨obj, hfind, hinv', hkept⟩ := served_cut hinv hfree hsize hfit hsplit
      rw [if_pos hsplit, hfind, Option.map_some] at hcall
      obtain ⟨_, _, hbound⟩ := block_bounds hinv.heap.tiles hblock
      exact ⟨block.link, _, _, hcall, ⟨⟨_, hinv'⟩, hkept,
        Or.inr ⟨frontPart block size, rfl, granted_cut hfree (by omega)⟩⟩, hanswer⟩
    · rw [if_neg hsplit] at hcall
      obtain ⟨blocks', hserved⟩ := served_whole hinv hfree hfit
      exact ⟨block.link, _, blocks', hcall, hserved, hanswer⟩

/-! ## Combining -/

/-- A pool in which `cur` is on its way back: it is not on the list, and it may
have free neighbours. -/
structure Combining (mem : Mem) (pool : PoolChunk) (before : List Block) (cur : Block)
    (after : List Block) (nodes : List Nat) : Prop where
  heap : Heap mem pool.arena (before ++ cur :: after) nodes
  status : cur.status = .used 0
  separate_before : Separate before
  separate_after : Separate after
  plain : Plain (before ++ cur :: after)
  controls : Controls mem pool

/-- A step on the way from one such pool to another, with one node less. -/
structure Combined (mem : Mem) (pool : PoolChunk) (before : List Block) (after : List Block)
    (nodes : List Nat) (mem' : Mem) (before' : List Block) (cur' : Block) (after' : List Block)
    (nodes' : List Nat) : Prop where
  next : Combining mem' pool before' cur' after' nodes'
  used_same : usedBlocks (before' ++ after') = usedBlocks (before ++ after)
  kept : Kept mem mem' (usedBlocks (before ++ after))
  fewer : nodes'.length + 1 = nodes.length

/-- How a turn changes `cur` and the list: it is joined with a free neighbour, which
leaves the list. -/
structure Absorbed (before : List Block) (cur : Block) (after : List Block) (nodes : List Nat)
    (owner : Block) (before' : List Block) (cur' : Block) (after' : List Block)
    (nodes' : List Nat) : Prop where
  free : owner.isFree = true
  listed : ∃ pre post, nodes = pre ++ owner.link :: post ∧ nodes' = pre ++ post
  size : cur'.size = cur.size + 4 + owner.size
  side : (before = before' ++ [owner] ∧ after' = after ∧ cur'.addr = owner.addr) ∨
    (before' = before ∧ after = owner :: after' ∧ cur'.addr = cur.addr)

/-- The end of a block, as the code computes it from its size word. -/
theorem addrPlus_efftsize (htiles : Tiles pool.arena.low blocks pool.arena.high)
    (hblock : block ∈ blocks) :
    addrPlus block.addr (efftsizeToPoolsize block.size) = block.stop := by
  obtain ⟨_, hhigh, _⟩ := block_bounds htiles hblock
  have htop := pool.top_lt
  simp only [addrPlus, efftsizeToPoolsize, Block.stop, wordModulus] at *
  omega

/-- The growth of a block that takes in another, as the code computes it. -/
theorem plus_efftsize (htiles : Tiles pool.arena.low blocks pool.arena.high)
    (hblock : block ∈ blocks) (n : Nat) :
    n + efftsizeToPoolsize block.size = n + 4 + block.size := by
  obtain ⟨_, _, hbound⟩ := block_bounds htiles hblock
  simp only [efftsizeToPoolsize, wordModulus] at *
  omega

/-- The node before `cur` takes it in and leaves the list. -/
theorem combine_left {left : Block} {pre post : List Nat}
    (hstate : Combining mem pool (before ++ [left]) cur after (pre ++ left.link :: post))
    (hfree : left.isFree = true) :
    Combined mem pool (before ++ [left]) after (pre ++ left.link :: post)
      (listDel (store32 mem left.addr (left.size + 4 + cur.size)) 0 left.link)
      before { Heap.merged left cur with status := .used 0 } after (pre ++ post) := by
  have hheap : Heap mem pool.arena (before ++ left :: cur :: after) (pre ++ left.link :: post) := by
    have hheap := hstate.heap
    rwa [List.append_assoc] at hheap
  have htag : (Heap.merged left cur).tag = left.size + 4 + cur.size := tag_of_free hfree
  obtain ⟨habsorbed, hframe⟩ := hheap.absorb (held_of_used hstate.status) htag
  obtain ⟨hunlinked, hframe'⟩ :=
    habsorbed.unlink { Heap.merged left cur with status := .used 0 } rfl
    rfl hfree rfl htag.symm
  have hkeep : Frame _ _ pool.arena (before ++ after) := hframe'.mono fun other hother _ => by
    simp only [List.mem_append, List.mem_cons] at hother ⊢
    tauto
  have hframeAll := hframe.trans hkeep
  have hused : usedBlocks (before ++ [left] ++ after) = usedBlocks (before ++ after) := by
    simp [usedBlocks, isUsed_of_free hfree]
  refine ⟨⟨hunlinked, rfl, ?_, hstate.separate_after, ?_, hstate.controls.of_frame hframeAll⟩,
    hused.symm, ?_, by simp; omega⟩
  · exact (List.isChain_append.mp hstate.separate_before).1
  · have hplain := hstate.plain
    simp only [Plain, List.forall_mem_append, List.forall_mem_cons] at hplain ⊢
    exact ⟨hplain.1.1, ⟨show 8 ≤ left.size + 4 + cur.size by omega, Or.inr trivial⟩, hplain.2.2⟩
  · rw [hused]
    exact Kept.of_frame hframeAll fun other hother => (mem_usedBlocks.mp hother).1

/-- `cur` takes in the node behind it, which leaves the list. -/
theorem combine_right {next : Block} {pre post : List Nat}
    (hstate : Combining mem pool before cur (next :: after) (pre ++ next.link :: post))
    (hfree : next.isFree = true) :
    Combined mem pool before (next :: after) (pre ++ next.link :: post)
      (listDel (store32 mem cur.addr (cur.size + 4 + next.size)) 0 next.link)
      before (Heap.merged cur next) after (pre ++ post) := by
  have htag : (Heap.merged cur next).tag = cur.size + 4 + next.size := tag_of_used hstate.status
  obtain ⟨habsorbed, hframe⟩ := hstate.heap.absorb_free hfree htag
  have hused : usedBlocks (before ++ next :: after) = usedBlocks (before ++ after) :=
    usedBlocks_middle (isUsed_of_free hfree)
  refine ⟨⟨habsorbed, hstate.status, hstate.separate_before, hstate.separate_after.tail, ?_,
    hstate.controls.of_frame hframe⟩, hused.symm, ?_, by simp; omega⟩
  · have hplain := hstate.plain
    simp only [Plain, List.forall_mem_append, List.forall_mem_cons] at hplain ⊢
    exact ⟨hplain.1, ⟨show 8 ≤ cur.size + 4 + next.size by omega, Or.inr hstate.status⟩,
      hplain.2.2.2⟩
  · rw [hused]
    exact Kept.of_frame hframe fun other hother => (mem_usedBlocks.mp hother).1

/-- What the body of the loop sees at a node: it is the left neighbour of `cur`,
the right one, or neither. -/
theorem combineBody_eq (hstate : Combining mem pool before cur after nodes) {owner : Block}
    (howner : owner ∈ before ++ cur :: after) (hfree : owner.isFree = true) :
    combineBody owner.link ⟨mem, cur.addr, false⟩ =
      if owner.stop = cur.addr then
        .brk ⟨store32 mem owner.addr (owner.size + 4 + cur.size), owner.addr, true⟩
      else if cur.stop = owner.addr then
        .brk ⟨store32 mem cur.addr (cur.size + 4 + owner.size), cur.addr, true⟩
      else .cont ⟨mem, cur.addr, false⟩ := by
  have hcur : cur ∈ before ++ cur :: after := by simp
  have hheader := hstate.heap.headers owner howner
  rw [tag_of_free hfree] at hheader
  have hheader' := hstate.heap.headers cur hcur
  rw [tag_of_used hstate.status] at hheader'
  have htiles := hstate.heap.tiles
  simp only [combineBody, link_sub, hheader, hheader', addrPlus_efftsize htiles howner,
    addrPlus_efftsize htiles hcur, plus_efftsize htiles howner, plus_efftsize htiles hcur]

/-- Until the loop over the nodes breaks, it changes nothing. -/
theorem combineBody_looks (hstate : Combining mem pool before cur after nodes) {obj : Nat}
    (hobj : obj ∈ nodes) :
    combineBody obj ⟨mem, cur.addr, false⟩ = .cont ⟨mem, cur.addr, false⟩ ∨
      ∃ next, combineBody obj ⟨mem, cur.addr, false⟩ = .brk next := by
  obtain ⟨owner, howner, hfree, rfl⟩ := hstate.heap.toShape.exists_block hobj
  rw [combineBody_eq hstate howner hfree]
  split
  · exact Or.inr ⟨_, rfl⟩
  · split
    · exact Or.inr ⟨_, rfl⟩
    · exact Or.inl rfl

/-- The loop goes through the nodes of the ring. -/
theorem combine_walk (hstate : Combining mem pool before cur after nodes) :
    listForEach CombineState.mem 0 (freeSlotsAt pool.allocator) combineBody
        ⟨mem, cur.addr, false⟩ =
      some ((walk combineBody nodes ⟨mem, cur.addr, false⟩).1.getD (freeSlotsAt pool.allocator),
        (walk combineBody nodes ⟨mem, cur.addr, false⟩).2) := by
  have hshape := hstate.heap.toShape
  refine listForEach_eq_walk (fun state : CombineState => state = ⟨mem, cur.addr, false⟩)
    ?_ ?_ hshape.head_notMem rfl hshape.length_lt
  · rintro _ rfl
    exact hstate.heap.ring
  · rintro obj hobj _ next rfl hcont
    rcases combineBody_looks hstate hobj with hsame | ⟨other, hbrk⟩
    · exact (Flow.cont.inj (hsame.symm.trans hcont)).symm
    · rw [hbrk] at hcont
      cases hcont

/-- A turn that finds nothing to combine with leaves no free neighbour. -/
theorem alone_of_cont (hstate : Combining mem pool before cur after nodes)
    (hall : ∀ obj ∈ nodes,
      combineBody obj ⟨mem, cur.addr, false⟩ = .cont ⟨mem, cur.addr, false⟩) :
    (∀ front left, before = front ++ [left] → left.isFree = false) ∧
      ∀ next rest, after = next :: rest → next.isFree = false := by
  have htiles := hstate.heap.tiles
  -- A free neighbour would have been combined.
  have hnone : ∀ owner ∈ before ++ cur :: after, owner.isFree = true →
      owner.stop ≠ cur.addr ∧ cur.stop ≠ owner.addr := by
    intro owner howner hfree
    have hcont := hall owner.link (hstate.heap.toShape.link_mem howner hfree)
    rw [combineBody_eq hstate howner hfree] at hcont
    split at hcont
    · cases hcont
    · split at hcont
      · cases hcont
      · exact ⟨‹_›, ‹_›⟩
  constructor
  · rintro front left rfl
    by_contra hfree
    obtain ⟨hbefore, _⟩ := tiles_middle.mp htiles
    have hstop : left.stop = cur.addr := (tiles_middle.mp hbefore).2
    exact (hnone left (by simp) (by simpa using hfree)).1 hstop
  · rintro right rest rfl
    by_contra hfree
    obtain ⟨_, haddr, _⟩ := tiles_middle.mp htiles
    exact (hnone right (by simp) (by simpa using hfree)).2 haddr.symm

/-- A turn that breaks has combined `cur` with the neighbour it broke at. -/
theorem combined_of_brk (hstate : Combining mem pool before cur after nodes) {owner : Block}
    {pre post : List Nat} {next : CombineState} (hnodes : nodes = pre ++ owner.link :: post)
    (howner : owner ∈ before ++ cur :: after) (hfree : owner.isFree = true)
    (hbrk : combineBody owner.link ⟨mem, cur.addr, false⟩ = .brk next) :
    next.defragFlag = true ∧ ∃ before' cur' after' nodes', cur'.addr = next.cur ∧
      Combined mem pool before after nodes (listDel next.mem 0 owner.link) before' cur' after'
        nodes' ∧
      Absorbed before cur after nodes owner before' cur' after' nodes' := by
  subst hnodes
  have htiles := hstate.heap.tiles
  rw [combineBody_eq hstate howner hfree] at hbrk
  split at hbrk
  · rename_i hleft
    obtain rfl := Flow.brk.inj hbrk
    obtain ⟨front, rfl⟩ := left_of_stop htiles howner hleft
    refine ⟨rfl, front, { Heap.merged owner cur with status := .used 0 }, after, _, rfl,
      combine_left hstate hfree, hfree, ⟨pre, post, rfl, rfl⟩, ?_, Or.inl ⟨rfl, rfl, rfl⟩⟩
    show owner.size + 4 + cur.size = cur.size + 4 + owner.size
    omega
  · split at hbrk
    · rename_i hright
      obtain rfl := Flow.brk.inj hbrk
      obtain ⟨rest, rfl⟩ := right_of_stop htiles howner hright
      exact ⟨rfl, before, Heap.merged cur owner, rest, _, rfl, combine_right hstate hfree, hfree,
        ⟨pre, post, rfl, rfl⟩, rfl, Or.inr ⟨rfl, rfl, rfl⟩⟩
    · cases hbrk

/-- One turn of the `while`: it combines `cur` with a neighbour, or there is no
free one. -/
theorem combine_turn (hstate : Combining mem pool before cur after nodes) (fuel : Nat) :
    (combine pool.allocator (fuel + 1) mem cur.addr = some (mem, cur.addr) ∧
        (∀ front left, before = front ++ [left] → left.isFree = false) ∧
        ∀ next rest, after = next :: rest → next.isFree = false) ∨
      ∃ mem' owner before' cur' after' nodes',
        combine pool.allocator (fuel + 1) mem cur.addr =
          combine pool.allocator fuel mem' cur'.addr ∧
        Combined mem pool before after nodes mem' before' cur' after' nodes' ∧
        Absorbed before cur after nodes owner before' cur' after' nodes' := by
  have hloop := combine_walk hstate
  rcases walk_search combineBody _ fun obj => combineBody_looks hstate with
    ⟨hwalk, hall⟩ | ⟨pre, obj, post, next, hnodes, hbrk, hwalk⟩
  · left
    rw [hwalk] at hloop
    refine ⟨?_, alone_of_cont hstate hall⟩
    rw [combine, hloop]
    rfl
  · right
    rw [hwalk] at hloop
    obtain ⟨owner, howner, hfree, rfl⟩ :=
      hstate.heap.toShape.exists_block (show obj ∈ nodes by simp [hnodes])
    obtain ⟨hflag, before', cur', after', nodes', hcur, hcombined⟩ :=
      combined_of_brk hstate hnodes howner hfree hbrk
    refine ⟨_, owner, before', cur', after', nodes', ?_, hcombined⟩
    rw [combine, hloop, hcur]
    exact if_pos hflag

/-- Whether the node at `obj` ends where a block starts, or starts where it stops. -/
def touches (mem : Mem) (addr stop obj : Nat) : Bool :=
  obj + load32 mem (obj - 4) = addr || stop + 4 = obj

/-- The nodes that a block on its way back is not joined with. -/
def apartNodes (mem : Mem) (addr stop : Nat) (nodes : List Nat) : List Nat :=
  nodes.filter fun obj => !touches mem addr stop obj

/-- The size of a block with that of the nodes that it is joined with. -/
def joinedSize (mem : Mem) (addr stop size : Nat) (nodes : List Nat) : Nat :=
  size + ((nodes.filter (touches mem addr stop)).map fun obj => load32 mem (obj - 4) + 4).sum

theorem touches_link (hheap : Heap mem pool.arena blocks nodes) (hblock : block ∈ blocks)
    (hfree : block.isFree = true) (addr stop : Nat) :
    touches mem addr stop block.link = decide (block.stop = addr ∨ stop = block.addr) := by
  have hheader := header_of_free hheap hblock hfree
  rw [Bool.eq_iff_iff, touches, hheader]
  simp only [Bool.or_eq_true, decide_eq_true_eq]
  simp only [Block.link, Block.stop]
  omega

/-- A node beside the one that is absorbed has the neighbours that it had. -/
theorem Absorbed.touches_iff {owner other : Block} {before' after' : List Block} {cur' : Block}
    {nodes' : List Nat} (hstate : Combining mem pool before cur after nodes)
    (habsorbed : Absorbed before cur after nodes owner before' cur' after' nodes')
    (hother : other ∈ before' ++ after') (hfree : other.isFree = true) :
    (other.stop = cur'.addr ∨ cur'.stop = other.addr) ↔
      (other.stop = cur.addr ∨ cur.stop = other.addr) := by
  have hsize := habsorbed.size
  obtain ⟨hbefore, hafter⟩ := tiles_middle.mp hstate.heap.tiles
  rcases habsorbed.side with ⟨rfl, rfl, haddr⟩ | ⟨rfl, rfl, haddr⟩
  · -- The neighbour on the left has no free block before it.
    obtain ⟨hfront, hend⟩ := tiles_middle.mp hbefore
    have hjoint : owner.stop = cur.addr := hend
    have hgap : other ∈ before' → other.stop ≠ owner.addr := fun hmem =>
      hstate.separate_before.stop_ne hbefore (List.mem_append_left _ hmem) (by simp) hfree
        habsorbed.free
    rcases List.mem_append.mp hother with hmem | hmem
    · have hbounds := tiles_bounds hfront hmem
      have hne := hgap hmem
      simp only [Block.stop] at *
      omega
    · have hbounds := tiles_bounds hafter hmem
      simp only [Block.stop] at *
      omega
  · obtain ⟨hjoint, hrest⟩ := hafter
    have hgap : other ∈ after' → owner.stop ≠ other.addr := fun hmem =>
      hstate.separate_after.stop_ne (show Tiles cur.stop (owner :: after') _ from ⟨hjoint, hrest⟩)
        List.mem_cons_self (List.mem_cons_of_mem _ hmem) habsorbed.free hfree
    rcases List.mem_append.mp hother with hmem | hmem
    · have hbounds := tiles_bounds hbefore hmem
      simp only [Block.stop] at *
      omega
    · have hbounds := tiles_bounds hrest hmem
      have hne := hgap hmem
      simp only [Block.stop] at *
      omega

/-- The node that is absorbed is a neighbour. -/
theorem Absorbed.touches_owner {owner : Block} {before' after' : List Block} {cur' : Block}
    {nodes' : List Nat} (hstate : Combining mem pool before cur after nodes)
    (habsorbed : Absorbed before cur after nodes owner before' cur' after' nodes') :
    owner ∈ before ++ cur :: after ∧ (owner.stop = cur.addr ∨ cur.stop = owner.addr) := by
  obtain ⟨hbefore, hafter⟩ := tiles_middle.mp hstate.heap.tiles
  rcases habsorbed.side with ⟨rfl, rfl, -⟩ | ⟨rfl, rfl, -⟩
  · exact ⟨by simp, Or.inl (tiles_middle.mp hbefore).2⟩
  · exact ⟨by simp, Or.inr hafter.1.symm⟩

/-- A turn keeps what the block will have been joined with in the end. -/
theorem Absorbed.same_goal {owner : Block} {before' after' : List Block} {cur' : Block}
    {nodes' : List Nat} (hstate : Combining mem pool before cur after nodes)
    (habsorbed : Absorbed before cur after nodes owner before' cur' after' nodes')
    (hstate' : Combining mem' pool before' cur' after' nodes') :
    apartNodes mem' cur'.addr cur'.stop nodes' = apartNodes mem cur.addr cur.stop nodes ∧
      joinedSize mem' cur'.addr cur'.stop cur'.size nodes' =
        joinedSize mem cur.addr cur.stop cur.size nodes ∧
      ∀ obj ∈ nodes', load32 mem' (obj - 4) = load32 mem (obj - 4) := by
  have hkept : ∀ obj ∈ nodes', load32 mem' (obj - 4) = load32 mem (obj - 4) ∧
      touches mem' cur'.addr cur'.stop obj = touches mem cur.addr cur.stop obj := by
    intro obj hobj
    obtain ⟨other, hother, hfree, rfl⟩ := hstate'.heap.toShape.exists_block hobj
    have hrest : other ∈ before' ++ after' := by
      simp only [List.mem_append, List.mem_cons] at hother ⊢
      rcases hother with h | rfl | h
      · exact Or.inl h
      · simp [held_of_used hstate'.status] at hfree
      · exact Or.inr h
    have hold : other ∈ before ++ cur :: after := by
      simp only [List.mem_append, List.mem_cons] at hrest ⊢
      rcases habsorbed.side with ⟨rfl, rfl, -⟩ | ⟨rfl, rfl, -⟩ <;> simp <;> tauto
    refine ⟨header_kept hstate.heap hstate'.heap hold hother hfree, ?_⟩
    rw [touches_link hstate'.heap hother hfree, touches_link hstate.heap hold hfree,
      decide_eq_decide]
    exact habsorbed.touches_iff hstate hrest hfree
  obtain ⟨howner, hneighbour⟩ := habsorbed.touches_owner hstate
  have htouch : touches mem cur.addr cur.stop owner.link = true := by
    rw [touches_link hstate.heap howner habsorbed.free]
    simpa using hneighbour
  have hheader := header_of_free hstate.heap howner habsorbed.free
  obtain ⟨pre, post, rfl, rfl⟩ := habsorbed.listed
  have hfilter : (pre ++ post).filter (touches mem' cur'.addr cur'.stop) =
      (pre ++ post).filter (touches mem cur.addr cur.stop) :=
    List.filter_congr fun obj hobj => (hkept obj hobj).2
  refine ⟨?_, ?_, fun obj hobj => (hkept obj hobj).1⟩
  · have hfilter' : apartNodes mem' cur'.addr cur'.stop (pre ++ post) =
        apartNodes mem cur.addr cur.stop (pre ++ post) :=
      List.filter_congr fun obj hobj => by rw [(hkept obj hobj).2]
    rw [hfilter']
    simp [apartNodes, htouch]
  · have hsum : ((pre ++ post).filter (touches mem cur.addr cur.stop)).map
        (fun obj => load32 mem' (obj - 4) + 4) =
          ((pre ++ post).filter (touches mem cur.addr cur.stop)).map
            (fun obj => load32 mem (obj - 4) + 4) :=
      List.map_congr_left fun obj hobj => by rw [(hkept obj (List.mem_filter.mp hobj).1).1]
    rw [joinedSize, joinedSize, hfilter, hsum, habsorbed.size]
    simp only [List.filter_append, List.filter_cons, htouch, if_true, List.map_append,
      List.map_cons, List.sum_append, List.sum_cons, hheader]
    omega

/-- Without a free neighbour nothing is joined. -/
theorem goal_of_alone (hstate : Combining mem pool before cur after nodes)
    (hleft : ∀ front left, before = front ++ [left] → left.isFree = false)
    (hright : ∀ next rest, after = next :: rest → next.isFree = false) :
    apartNodes mem cur.addr cur.stop nodes = nodes ∧
      joinedSize mem cur.addr cur.stop cur.size nodes = cur.size := by
  have hnone : ∀ obj ∈ nodes, touches mem cur.addr cur.stop obj = false := by
    intro obj hobj
    obtain ⟨other, hother, hfree, rfl⟩ := hstate.heap.toShape.exists_block hobj
    rw [touches_link hstate.heap hother hfree, decide_eq_false_iff_not]
    rintro (hstop | haddr)
    · obtain ⟨front, rfl⟩ := left_of_stop hstate.heap.tiles hother hstop
      simp [hleft front other rfl] at hfree
    · obtain ⟨rest, rfl⟩ := right_of_stop hstate.heap.tiles hother haddr
      simp [hright other rest rfl] at hfree
  constructor
  · exact List.filter_eq_self.mpr fun obj hobj => by rw [hnone obj hobj]; rfl
  · have hempty : nodes.filter (touches mem cur.addr cur.stop) = [] :=
      List.filter_eq_nil_iff.mpr fun obj hobj => by simp [hnone obj hobj]
    rw [joinedSize, hempty]
    rfl

/-- The `while` comes to its end, with no free neighbour left: the block is joined
with the free neighbours that it had. -/
theorem combine_spec (hstate : Combining mem pool before cur after nodes) {fuel : Nat}
    (hfuel : nodes.length < fuel) :
    ∃ mem' before' cur' after',
      combine pool.allocator fuel mem cur.addr = some (mem', cur'.addr) ∧
      Combining mem' pool before' cur' after' (apartNodes mem cur.addr cur.stop nodes) ∧
      cur'.size = joinedSize mem cur.addr cur.stop cur.size nodes ∧
      (∀ obj ∈ apartNodes mem cur.addr cur.stop nodes,
        load32 mem' (obj - 4) = load32 mem (obj - 4)) ∧
      usedBlocks (before' ++ after') = usedBlocks (before ++ after) ∧
      Kept mem mem' (usedBlocks (before ++ after)) ∧
      (∀ front left, before' = front ++ [left] → left.isFree = false) ∧
      ∀ next rest, after' = next :: rest → next.isFree = false := by
  induction fuel generalizing mem before cur after nodes with
  | zero => omega
  | succ fuel ih =>
      rcases combine_turn hstate fuel with ⟨hcall, hleft, hright⟩ |
        ⟨mem₁, owner, before₁, cur₁, after₁, nodes₁, hcall, hstep, habsorbed⟩
      · obtain ⟨hnodes, hsize⟩ := goal_of_alone hstate hleft hright
        rw [hnodes, hsize]
        exact ⟨mem, before, cur, after, hcall, hstate, rfl, fun _ _ => rfl, rfl,
          Kept.refl _ _, hleft, hright⟩
      · have hfewer := hstep.fewer
        obtain ⟨hnodes, hsize, hheaders⟩ := habsorbed.same_goal hstate hstep.next
        obtain ⟨mem', before', cur', after', hrest, hstate', hgrown, hheaders', hused, hkept,
          hneighbours⟩ := ih hstep.next (by omega)
        rw [hstep.used_same] at hused hkept
        rw [hnodes] at hstate' hheaders'
        refine ⟨mem', before', cur', after', hcall.trans hrest, hstate',
          hgrown.trans hsize, ?_, hused, hstep.kept.trans hkept, hneighbours⟩
        intro obj hobj
        rw [hheaders' obj hobj]
        exact hheaders obj (List.mem_of_mem_filter (hnodes ▸ hobj))

/-- The free list after a block of `size` bytes was linked into the nodes `rest`,
which keep their headers. -/
def Relisted (mem mem' : Mem) (allocator size : Nat) (rest : List Nat) : Prop :=
  ∃ link, freeSlots mem' allocator =
      insertBehind (fun obj => size ≤ load32 mem (obj - 4)) link rest ∧
    load32 mem' (link - 4) = size ∧ ∀ obj ∈ rest, load32 mem' (obj - 4) = load32 mem (obj - 4)

theorem freeSlots_eq (hheap : Heap mem pool.arena blocks nodes) :
    freeSlots mem pool.allocator = nodes :=
  listObjects_eq hheap.ring hheap.toShape.head_notMem hheap.toShape.length_lt

/-- `pool_free` of a block that is handed out. -/
theorem poolFree_spec (hinv : PoolInv mem pool (before ++ block :: after) nodes)
    (hstatus : block.status = .used 0) :
    ∃ mem' blocks' nodes', poolFree mem pool.allocator block.link = some mem' ∧
      PoolInv mem' pool blocks' nodes' ∧ usedBlocks blocks' = usedBlocks (before ++ after) ∧
      Kept mem mem' (usedBlocks (before ++ after)) ∧
      Relisted mem mem' pool.allocator (joinedSize mem block.addr block.stop block.size nodes)
        (apartNodes mem block.addr block.stop nodes) := by
  have hblock : block ∈ before ++ block :: after := by simp
  obtain ⟨hlow, hhigh, hbound⟩ := block_bounds hinv.heap.tiles hblock
  have hheader := hinv.heap.headers block hblock
  rw [tag_of_used hstatus] at hheader
  have htop := pool.top_lt
  have hend : addrPlus pool.chunkMem pool.chunkSize = pool.chunkMem + pool.chunkSize := by
    rw [addrPlus, Nat.mod_eq_of_lt htop]
  obtain ⟨hbefore, hafter⟩ := hinv.separate.parts
  have hstate : Combining mem pool before block after nodes :=
    ⟨hinv.heap, hstatus, hbefore, hafter, hinv.plain, hinv.controls⟩
  obtain ⟨mem₁, before₁, cur, after₁, hcombine, hstate₁, hgrown, hheaders, hused, hkept, hleft,
    hright⟩ := combine_spec hstate hinv.heap.toShape.length_lt
  have hcurRoom := (hstate₁.plain cur (by simp)).1
  obtain ⟨obj, hfind, hheap', hframe⟩ := insert_spec hstate₁.heap hstate₁.status hcurRoom
  let freed : Block := { cur with status := .free }
  have hinside : ¬ (block.link ≥ pool.chunkMem + pool.chunkSize ∨ block.link < pool.chunkMem) := by
    have hroom := (hinv.plain block hblock).1
    simp only [Block.link, Block.stop] at *
    omega
  have hsize : ¬ block.size > pool.chunkSize := by
    simp only [Block.stop] at *
    omega
  have hcall : poolFree mem pool.allocator block.link = some (listAdd mem₁ 0 cur.link obj) := by
    have hlink : block.link ≠ 0 := by simp [Block.link]
    simp only [poolFree, badAllocator_eq_false hinv.controls, hinv.controls.chunkMem,
      hinv.controls.chunkSize, hend, link_sub, hheader, Bool.false_or, decide_eq_true_eq]
    rw [if_neg hlink, if_neg hinside, if_neg hsize, hcombine, Option.bind_some, hfind]
    rfl
  have hfreed : freed.isUsed = false := rfl
  have hmem : freed ∈ before₁ ++ freed :: after₁ := by simp
  refine ⟨_, before₁ ++ freed :: after₁, _, hcall, ⟨hheap', ?_, ?_, ?_⟩, ?_, hkept.trans ?_,
    cur.link, ?_, ?_, ?_⟩
  · exact hstate₁.separate_before.insert_free hstate₁.separate_after hleft hright
  · exact Plain.exchange [freed] hstate₁.plain (by simp [Plain, freed, hcurRoom, Block.isFree])
  · exact hstate₁.controls.of_frame hframe
  · rw [usedBlocks_middle hfreed, hused]
  · rw [← hused]
    exact Kept.of_frame hframe fun other hother => (mem_usedBlocks.mp hother).1
  · rw [freeSlots_eq hheap', ← hgrown]
    exact insertBehind_congr cur.link fun obj hobj => by rw [hheaders obj hobj]
  · rw [← hgrown]
    have hheaderFreed : load32 _ (freed.link - 4) = freed.size := header_of_free hheap' hmem rfl
    exact hheaderFreed
  · intro other hother
    rw [← hheaders other hother]
    obtain ⟨owner, howner, hfree, rfl⟩ := hstate₁.heap.toShape.exists_block hother
    refine header_kept hstate₁.heap hheap' howner ?_ hfree
    simp only [List.mem_append, List.mem_cons] at howner ⊢
    rcases howner with h | rfl | h
    · exact Or.inl h
    · simp [held_of_used hstate₁.status] at hfree
    · exact Or.inr (Or.inr h)

/-! ## Bytes written by callers -/

/-- The invariant does not depend on the payload of a block in use. -/
theorem PoolInv.of_payload (hinv : PoolInv mem pool blocks nodes)
    (hblock : block ∈ usedBlocks blocks)
    (hsame : ∀ addr, addr < block.link ∨ block.stop ≤ addr → mem' addr = mem addr) :
    PoolInv mem' pool blocks nodes := by
  obtain ⟨hmem, hused⟩ := mem_usedBlocks.mp hblock
  have hbounds := block_bounds hinv.heap.tiles hmem
  refine ⟨hinv.heap.of_payload hmem (held_of_isUsed hused) hsame, hinv.separate, hinv.plain, ?_⟩
  have hframe : Frame mem mem' pool.arena [] := by
    refine ⟨by simp, ?_⟩
    intro addr hout _
    apply hsame
    simp only [PoolChunk.arena, Block.link] at *
    omega
  exact hinv.controls.of_frame hframe

/-! ## The start -/

/-- The memory that `init_pool_allocator` leaves when it accepts a chunk at a multiple
of eight: one node with the size of the chunk, the only one of its list. -/
theorem initPoolAllocator_writes {mem : Mem} {allocator chunkMem chunkSize : Nat}
    (hallocator : 0 < allocator) (hmemPos : 0 < chunkMem) (haligned : 8 ∣ chunkMem)
    (hsize : 4 < chunkSize) (htop : chunkMem + chunkSize < wordModulus)
    (hmem : load32 mem (chunkMemAt allocator) = chunkMem)
    (hchunk : load32 mem (chunkSizeAt allocator) = chunkSize) :
    initPoolAllocator mem allocator =
      (0, listAddTail (store32 (initListHead mem (freeSlotsAt allocator)) chunkMem (chunkSize - 4))
        0 (chunkMem + 4) (freeSlotsAt allocator)) := by
  have htested : ¬ (allocator = 0 ∨ chunkMem = 0 ∨ chunkSize ≤ efftsizeToPoolsize 0) := by
    simp only [efftsizeToPoolsize, wordModulus]
    omega
  have halign : align8Bytes chunkMem = chunkMem := by
    have hroom : chunkMem + 7 < wordModulus := by
      simp only [wordModulus] at htop ⊢
      omega
    have hspec := align8Bytes_spec hroom
    omega
  have hend : addrPlus chunkMem chunkSize = chunkMem + chunkSize := by
    rw [addrPlus, Nat.mod_eq_of_lt htop]
  have hvalue : poolsizeToEfftsize chunkSize = chunkSize - 4 := by
    rw [poolsizeToEfftsize, subWord_eq (by omega) (by omega)]
  simp only [initPoolAllocator, hmem, hchunk]
  rw [if_neg htested, halign, hend, if_neg (by omega), hvalue]

/-- `init_pool_allocator` makes one free block of the chunk. -/
theorem initPoolAllocator_spec (hcontrols : Controls mem pool) :
    ∃ mem' nodes, initPoolAllocator mem pool.allocator = (0, mem') ∧
      PoolInv mem' pool [⟨pool.chunkMem, pool.chunkSize - 4, .free⟩] nodes := by
  have hpos := pool.allocator_pos
  have hmem := pool.chunkMem_pos
  have hsize := pool.size_ge
  have htop := pool.top_lt
  have hle := pool.allocator_le
  have haligned := pool.aligned
  have houtside := pool.outside
  let first : Block := ⟨pool.chunkMem, pool.chunkSize - 4, .used 0⟩
  let mem₁ := initListHead mem (freeSlotsAt pool.allocator)
  let mem₂ := store32 mem₁ pool.chunkMem (pool.chunkSize - 4)
  have hwords : load32 mem₂ pool.chunkMem = pool.chunkSize - 4 ∧
      load32 mem₂ (pool.allocator + 4) = pool.allocator + 4 ∧
      load32 mem₂ (pool.allocator + 4 + 4) = pool.allocator + 4 := by
    have hvalue : (pool.chunkSize - 4) % wordModulus = pool.chunkSize - 4 :=
      Nat.mod_eq_of_lt (by omega)
    have hhead : (pool.allocator + 4) % wordModulus = pool.allocator + 4 :=
      Nat.mod_eq_of_lt (by omega)
    simp only [Apart] at houtside
    simp only [mem₂, mem₁, initListHead, freeSlotsAt]
    simp (disch := (simp only [Apart]; omega)) only [load32_store32_same, load32_store32_of_apart,
      hvalue, hhead, and_self]
  have htiles : Tiles pool.arena.low [first] pool.arena.high := by
    refine ⟨rfl, ?_⟩
    simp only [Block.stop, first, Tiles, PoolChunk.arena]
    omega
  -- Before it is linked, the block belongs to nobody and the list is empty.
  have hheap : Heap mem₂ pool.arena ([] ++ first :: []) ([] ++ []) := by
    refine ⟨⟨htiles, by simp [first, Block.isFree], List.Perm.refl _⟩, ?_, ?_⟩
    · simpa [first, Block.tag] using hwords.1
    · refine ⟨⟨?_, ?_⟩, trivial⟩
      · simp only [nextOf, offsetNode, PoolChunk.arena, hwords.2.1, Nat.zero_add]
        exact Nat.mod_eq_of_lt (by omega)
      · simp only [prevOf, offsetNode, PoolChunk.arena, hwords.2.2, Nat.zero_add]
        exact Nat.mod_eq_of_lt (by omega)
  have hlinked := hheap.link { first with status := .free } rfl rfl
    (show 8 ≤ pool.chunkSize - 4 by omega) rfl rfl rfl
  rw [← listAddTail_eq hheap.ring] at hlinked
  have hframe : Frame mem mem₂ pool.arena [] := by
    refine ⟨by simp, ?_⟩
    intro addr hout hhead
    simp only [PoolChunk.arena] at hout hhead
    simp only [mem₂, mem₁, initListHead, freeSlotsAt]
    rw [store32_apply (by omega), store32_apply (by omega), store32_apply (by omega)]
  have hcall := initPoolAllocator_writes hpos hmem haligned (by omega) htop hcontrols.chunkMem
    hcontrols.chunkSize
  refine ⟨_, _, hcall, hlinked.1, List.isChain_singleton _, ?_, ?_⟩
  · simp only [Plain, List.forall_mem_singleton, Block.isFree, decide_true, true_or, and_true]
    omega
  · exact (hcontrols.of_frame hframe).of_frame hlinked.2

/-- A chunk that `init_pool_allocator` does not refuse. -/
theorem exists_pool_of_accepted {allocator chunkMem chunkSize : Nat} (haligned : 8 ∣ chunkMem)
    (hsize : sizeofFreePool ≤ chunkSize) (hspace : chunkMem + chunkSize ≤ wordModulus)
    (hstruct : allocator + sizeofPoolAlloc ≤ wordModulus)
    (hapart : Apart allocator sizeofPoolAlloc chunkMem chunkSize)
    (hreserved : load32 mem allocator = 0) (hmem : load32 mem (chunkMemAt allocator) = chunkMem)
    (hchunk : load32 mem (chunkSizeAt allocator) = chunkSize)
    (haccepted : (initPoolAllocator mem allocator).1 = 0) :
    ∃ pool : PoolChunk, pool.allocator = allocator ∧ pool.chunkMem = chunkMem ∧
      pool.chunkSize = chunkSize ∧ Controls mem pool := by
  have htested : ¬ (allocator = 0 ∨ chunkMem = 0) := by
    intro hrefused
    have hbad : allocator = 0 ∨ chunkMem = 0 ∨ chunkSize ≤ efftsizeToPoolsize 0 := by tauto
    simp only [initPoolAllocator, hmem, hchunk, if_pos hbad] at haccepted
    cases haccepted
  have hend : chunkMem + chunkSize ≠ wordModulus := by
    intro htop
    have hzero : addrPlus chunkMem chunkSize = 0 := by rw [addrPlus, htop, Nat.mod_self]
    simp only [initPoolAllocator, hmem, hchunk, hzero, ge_iff_le, Nat.zero_le, if_true,
      ite_self] at haccepted
    cases haccepted
  refine ⟨⟨allocator, chunkMem, chunkSize, by omega, hstruct, by omega, haligned, hsize, by omega,
    hapart⟩, rfl, rfl, rfl, hreserved, hmem, hchunk⟩

end

end McuProxy.Ckits.Pool
