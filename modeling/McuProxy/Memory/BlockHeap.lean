/-
# Heaps of blocks with a free list

A heap is an interval of memory cut into blocks without gaps. A block starts
with a word that records its size, followed by the payload. Free blocks are
linked: the first eight bytes of their payload are an object of a circular list
whose head lies outside the interval.

`Heap` ties a memory to a list of blocks in address order and to the nodes of the
free list in list order. Linking, unlinking, merging and splitting blocks are
described by the heap they leave and by what they do not touch. How an
allocator chooses blocks and positions is left to it.
-/

import McuProxy.Memory.Blocks
import McuProxy.Memory.Ring

namespace McuProxy.Memory

/-! ## Heaps -/

/-- Where a heap lies: the base of its links, the head of its free list, and the
interval of its blocks. -/
structure Arena where
  base : Nat
  head : Nat
  low : Nat
  high : Nat
  base_le_head : base ≤ head
  base_le_low : base ≤ low
  head_le : head + 8 ≤ wordModulus
  high_le : high ≤ wordModulus
  head_outside : head + 8 ≤ low ∨ high ≤ head

/-- The part of a heap that does not depend on memory: the blocks tile the
interval, free blocks have room for their links, and the nodes of the list are
the free blocks. -/
structure Shape (arena : Arena) (blocks : List Block) (nodes : List Nat) : Prop where
  tiles : Tiles arena.low blocks arena.high
  fits : ∀ block ∈ blocks, block.isFree = true → 8 ≤ block.size
  nodes_perm : nodes.Perm (freeLinks blocks)

/-- A memory that stores a heap. -/
structure Heap (mem : Mem) (arena : Arena) (blocks : List Block) (nodes : List Nat) : Prop
    extends Shape arena blocks nodes where
  headers : ∀ block ∈ blocks, load32 mem block.addr = block.tag
  ring : Ring mem arena.base arena.head nodes

namespace Shape

variable {arena : Arena} {blocks : List Block} {nodes : List Nat}

theorem exists_block (hshape : Shape arena blocks nodes) {obj : Nat} (hobj : obj ∈ nodes) :
    ∃ block ∈ blocks, block.isFree = true ∧ block.link = obj :=
  mem_freeLinks.mp (hshape.nodes_perm.mem_iff.mp hobj)

theorem link_mem (hshape : Shape arena blocks nodes) {block : Block} (hblock : block ∈ blocks)
    (hfree : block.isFree = true) : block.link ∈ nodes :=
  hshape.nodes_perm.mem_iff.mpr (mem_freeLinks.mpr ⟨block, hblock, hfree, rfl⟩)

/-- List objects lie inside their blocks, and the head outside all of them. -/
theorem object_apart (hshape : Shape arena blocks nodes) {obj : Nat}
    (hobj : obj ∈ arena.head :: nodes) {block : Block} (hblock : block ∈ blocks) :
    (∃ owner ∈ blocks, owner.isFree = true ∧ owner.link = obj ∧ owner.stop ≤ block.addr) ∨
      (∃ owner ∈ blocks, owner.isFree = true ∧ owner.link = obj ∧ block.stop ≤ owner.addr) ∨
      (block.isFree = true ∧ block.link = obj) ∨ obj = arena.head := by
  rcases List.mem_cons.mp hobj with rfl | hnode
  · exact Or.inr (Or.inr (Or.inr rfl))
  · obtain ⟨owner, howner, hfree, hlink⟩ := hshape.exists_block hnode
    rcases tiles_apart hshape.tiles howner hblock with rfl | hbefore | hafter
    · exact Or.inr (Or.inr (Or.inl ⟨hfree, hlink⟩))
    · exact Or.inl ⟨owner, howner, hfree, hlink, hbefore⟩
    · exact Or.inr (Or.inl ⟨owner, howner, hfree, hlink, hafter⟩)

/-- No list object overlaps the size word of a block. -/
theorem header_apart (hshape : Shape arena blocks nodes) {obj : Nat}
    (hobj : obj ∈ arena.head :: nodes) {block : Block} (hblock : block ∈ blocks) :
    Apart block.addr 4 obj 8 := by
  have hbounds := tiles_bounds hshape.tiles hblock
  have houtside := arena.head_outside
  unfold Apart
  rcases hshape.object_apart hobj hblock with ⟨owner, howner, hfree, rfl, hbefore⟩ |
    ⟨owner, howner, hfree, rfl, hafter⟩ | ⟨hfree, rfl⟩ | rfl
  · have hsize := hshape.fits owner howner hfree
    simp only [Block.stop, Block.link] at *
    omega
  · simp only [Block.stop, Block.link] at *
    omega
  · simp only [Block.link]
    omega
  · simp only [Block.stop] at *
    omega

/-- No list object overlaps a block that is not free. -/
theorem held_apart (hshape : Shape arena blocks nodes) {obj : Nat}
    (hobj : obj ∈ arena.head :: nodes) {block : Block} (hblock : block ∈ blocks)
    (hheld : block.isFree = false) : Apart block.addr (4 + block.size) obj 8 := by
  have hbounds := tiles_bounds hshape.tiles hblock
  have houtside := arena.head_outside
  unfold Apart
  rcases hshape.object_apart hobj hblock with ⟨owner, howner, hfree, rfl, hbefore⟩ |
    ⟨owner, howner, hfree, rfl, hafter⟩ | ⟨hfree, _⟩ | rfl
  · have hsize := hshape.fits owner howner hfree
    simp only [Block.stop, Block.link] at *
    omega
  · simp only [Block.stop, Block.link] at *
    omega
  · exact absurd hfree (by simp [hheld])
  · simp only [Block.stop] at *
    omega

theorem links_apart {low high : Nat} (htiles : Tiles low blocks high)
    (hfits : ∀ block ∈ blocks, block.isFree = true → 8 ≤ block.size) :
    (freeLinks blocks).Pairwise fun first second => Apart first 8 second 8 := by
  rw [freeLinks, List.pairwise_map]
  have hfilter := (tiles_pairwise htiles).filter Block.isFree
  refine hfilter.imp_of_mem ?_
  intro first second hfirst _ hbefore
  obtain ⟨hmem, hfree⟩ := List.mem_filter.mp hfirst
  have hsize := hfits first hmem hfree
  left
  simp only [Block.stop, Block.link] at *
  omega

/-- The head and the nodes can be linked. -/
theorem placed (hshape : Shape arena blocks nodes) : Placed arena.base (arena.head :: nodes) := by
  have hinside : ∀ obj ∈ nodes, arena.low ≤ obj ∧ obj + 8 ≤ arena.high := by
    intro obj hobj
    obtain ⟨owner, howner, hfree, rfl⟩ := hshape.exists_block hobj
    have hsize := hshape.fits owner howner hfree
    have hbounds := tiles_bounds hshape.tiles howner
    simp only [Block.stop, Block.link] at *
    omega
  have hbase := arena.base_le_head
  have hlow := arena.base_le_low
  have hhead := arena.head_le
  have hhigh := arena.high_le
  have houtside := arena.head_outside
  constructor
  · intro obj hobj
    rcases List.mem_cons.mp hobj with rfl | hnode
    · exact ⟨hbase, hhead⟩
    · have hobjInside := hinside obj hnode
      omega
  · refine List.pairwise_cons.mpr ⟨?_, ?_⟩
    · intro obj hobj
      have hobjInside := hinside obj hobj
      unfold Apart
      omega
    · exact (hshape.nodes_perm.symm.pairwise (links_apart hshape.tiles hshape.fits)) Or.symm

theorem head_notMem (hshape : Shape arena blocks nodes) : arena.head ∉ nodes :=
  (List.nodup_cons.mp hshape.placed.nodup).1

/-- The free list is shorter than the fuel of a loop. -/
theorem length_lt (hshape : Shape arena blocks nodes) : nodes.length < loopFuel := by
  have hlength := tiles_length hshape.tiles
  have hhigh := arena.high_le
  have hsub : (freeLinks blocks).length ≤ blocks.length := by
    rw [freeLinks, List.length_map]
    exact List.length_filter_le _ _
  rw [hshape.nodes_perm.length_eq, loopFuel]
  have hpos : 0 < wordModulus := by decide
  omega

/-- Exchange a stretch of blocks for others that cover the same interval. -/
theorem replace {before middle after : List Block} (middle' : List Block) {nodes' : List Nat}
    (hshape : Shape arena (before ++ middle ++ after) nodes)
    (htiles : ∀ low high, Tiles low middle high → Tiles low middle' high)
    (hfits : ∀ block ∈ middle', block.isFree = true → 8 ≤ block.size)
    (hnodes : nodes'.Perm (freeLinks (before ++ middle' ++ after))) :
    Shape arena (before ++ middle' ++ after) nodes' where
  tiles := by
    obtain ⟨stop, hfront, hafter⟩ := tiles_append.mp hshape.tiles
    obtain ⟨start, hbefore, hmiddle⟩ := tiles_append.mp hfront
    exact tiles_append.mpr ⟨stop, tiles_append.mpr ⟨start, hbefore, htiles _ _ hmiddle⟩, hafter⟩
  fits := by
    intro block hblock hfree
    have hold := hshape.fits block
    simp only [List.mem_append] at hblock hold
    rcases hblock with (hbefore | hmiddle) | hafter
    · exact hold (Or.inl (Or.inl hbefore)) hfree
    · exact hfits block hmiddle hfree
    · exact hold (Or.inr hafter) hfree
  nodes_perm := hnodes

end Shape

/-! ## What an operation leaves alone -/

/-- The blocks of `kept` that are not free keep every byte, and so does
everything outside the interval and the head of the list. -/
structure Frame (mem mem' : Mem) (arena : Arena) (kept : List Block) : Prop where
  blocks : ∀ block ∈ kept, block.isFree = false → SameOn mem mem' block.addr block.stop
  outside : ∀ addr, addr < arena.low ∨ arena.high ≤ addr →
    addr < arena.head ∨ arena.head + 8 ≤ addr → mem' addr = mem addr

namespace Frame

variable {mem mem' mem'' : Mem} {arena : Arena} {blocks kept : List Block} {nodes : List Nat}

theorem refl (mem : Mem) (arena : Arena) (kept : List Block) : Frame mem mem arena kept :=
  ⟨fun _ _ _ => SameOn.refl _ _ _, fun _ _ _ => rfl⟩

theorem trans (hfirst : Frame mem mem' arena kept) (hsecond : Frame mem' mem'' arena kept) :
    Frame mem mem'' arena kept :=
  ⟨fun block hblock hheld =>
      (hfirst.blocks block hblock hheld).trans (hsecond.blocks block hblock hheld),
    fun addr hin hhead => (hsecond.outside addr hin hhead).trans (hfirst.outside addr hin hhead)⟩

theorem mono {fewer : List Block} (hframe : Frame mem mem' arena kept)
    (hsub : ∀ block ∈ fewer, block.isFree = false → block ∈ kept) :
    Frame mem mem' arena fewer :=
  ⟨fun block hblock hheld => hframe.blocks block (hsub block hblock hheld) hheld, hframe.outside⟩

/-- Operations on the free list touch free blocks and the head. -/
theorem of_untouched (hshape : Shape arena blocks nodes)
    (huntouched : Untouched mem mem' (arena.head :: nodes)) : Frame mem mem' arena blocks where
  blocks := by
    intro block hblock hheld addr hlow hhigh
    apply huntouched
    intro obj hobj
    have hapart := hshape.held_apart hobj hblock hheld
    simp only [Apart, Block.stop] at *
    omega
  outside := by
    intro addr hin hhead
    apply huntouched
    intro obj hobj
    rcases List.mem_cons.mp hobj with rfl | hnode
    · exact hhead
    · obtain ⟨owner, howner, hfree, rfl⟩ := hshape.exists_block hnode
      have hsize := hshape.fits owner howner hfree
      have hbounds := tiles_bounds hshape.tiles howner
      simp only [Block.stop, Block.link] at *
      omega

/-- A word stored inside a block touches no other block. -/
theorem of_store {before after : List Block} {block : Block} {addr value : Nat}
    (htiles : Tiles arena.low (before ++ block :: after) arena.high) (hlow : block.addr ≤ addr)
    (hhigh : addr + 4 ≤ block.stop) :
    Frame mem (store32 mem addr value) arena (before ++ after) where
  blocks := by
    intro other hother _ at' hat hat'
    have haround := tiles_around htiles hother
    exact store32_apply (by omega)
  outside := by
    intro at' hin _
    have hblock : block ∈ before ++ block :: after := by simp
    have hbounds := tiles_bounds htiles hblock
    exact store32_apply (by omega)

end Frame

/-- Every byte of the given blocks, size words included, is kept. -/
def Kept (mem mem' : Mem) (blocks : List Block) : Prop :=
  ∀ block ∈ blocks, SameOn mem mem' block.addr block.stop

section

variable {mem mem' mem'' : Mem} {arena : Arena} {blocks kept : List Block}

theorem Kept.refl (mem : Mem) (blocks : List Block) : Kept mem mem blocks :=
  fun _ _ => SameOn.refl _ _ _

theorem Kept.trans (hfirst : Kept mem mem' blocks) (hsecond : Kept mem' mem'' blocks) :
    Kept mem mem'' blocks := fun block hblock =>
  (hfirst block hblock).trans (hsecond block hblock)

/-- Blocks handed out keep their bytes wherever blocks that are not free do. -/
theorem Kept.of_frame (hframe : Frame mem mem' arena kept)
    (hsub : ∀ block ∈ usedBlocks blocks, block ∈ kept) : Kept mem mem' (usedBlocks blocks) :=
  fun block hblock => hframe.blocks block (hsub block hblock)
    (held_of_isUsed (mem_usedBlocks.mp hblock).2)

end

/-! ## Operations on heaps -/

namespace Heap

variable {mem mem' : Mem} {arena : Arena} {blocks before after : List Block} {nodes : List Nat}

/-- The size words survive an operation on the free list. -/
theorem headers_untouched (hheap : Heap mem arena blocks nodes)
    (huntouched : Untouched mem mem' (arena.head :: nodes)) :
    ∀ block ∈ blocks, load32 mem' block.addr = block.tag := by
  intro block hblock
  rw [load32_untouched huntouched fun obj hobj => hheap.toShape.header_apart hobj hblock]
  exact hheap.headers block hblock

/-- The free list survives a store into a size word. -/
theorem ring_store (hheap : Heap mem arena blocks nodes) {block : Block} (hblock : block ∈ blocks)
    (value : Nat) :
    Ring (store32 mem block.addr value) arena.base arena.head nodes := by
  refine ring_congr ?_ hheap.ring
  intro obj hobj
  exact store32_sameOn (hheap.toShape.header_apart hobj hblock)

/-- A store into one size word leaves the others. -/
theorem headers_store {block block' : Block}
    (htiles : Tiles arena.low (before ++ block :: after) arena.high)
    (hheaders : ∀ other ∈ before ++ after, load32 mem other.addr = other.tag)
    (haddr : block'.addr = block.addr) (htag : block'.tag < wordModulus) :
    ∀ other ∈ before ++ block' :: after,
      load32 (store32 mem block.addr block'.tag) other.addr = other.tag := by
  intro other hother
  rcases List.mem_append.mp hother with hbefore | hafter
  · have hmem : other ∈ before ++ after := List.mem_append_left _ hbefore
    have haround := tiles_around htiles hmem
    rw [load32_store32_of_apart (by simp only [Apart, Block.stop] at *; omega)]
    exact hheaders other hmem
  · rcases List.mem_cons.mp hafter with rfl | hrest
    · rw [haddr, load32_store32_same, Nat.mod_eq_of_lt htag]
    · have hmem : other ∈ before ++ after := List.mem_append_right _ hrest
      have haround := tiles_around htiles hmem
      rw [load32_store32_of_apart (by simp only [Apart, Block.stop] at *; omega)]
      exact hheaders other hmem

theorem middle_mem (before after : List Block) (block : Block) :
    block ∈ before ++ block :: after := by
  simp

/-- Exchange one block for another at the same place. -/
theorem exchange {block : Block} (block' : Block) {nodes' : List Nat}
    (hshape : Shape arena (before ++ block :: after) nodes) (haddr : block'.addr = block.addr)
    (hsize : block'.size = block.size) (hfits : block'.isFree = true → 8 ≤ block'.size)
    (hnodes : nodes'.Perm (freeLinks (before ++ block' :: after))) :
    Shape arena (before ++ block' :: after) nodes' := by
  have hshape' : Shape arena (before ++ [block] ++ after) nodes := by simpa using hshape
  have hreplaced : Shape arena (before ++ [block'] ++ after) nodes' := by
    refine hshape'.replace [block'] ?_ (by simpa using hfits) (by simpa using hnodes)
    intro low high htiles
    obtain ⟨rfl, rfl⟩ := htiles
    exact ⟨haddr, by simp only [Block.stop, haddr, hsize, Tiles]⟩
  simpa using hreplaced

/-- The size words of blocks of which one is exchanged for one with the same
word. -/
theorem headers_exchange {block block' : Block}
    (hheaders : ∀ other ∈ before ++ block :: after, load32 mem other.addr = other.tag)
    (haddr : block'.addr = block.addr) (htag : block'.tag = block.tag) :
    ∀ other ∈ before ++ block' :: after, load32 mem other.addr = other.tag := by
  intro other hother
  simp only [List.mem_append, List.mem_cons] at hother hheaders
  rcases hother with hbefore | rfl | hafter
  · exact hheaders other (Or.inl hbefore)
  · rw [haddr, htag]
    exact hheaders block (Or.inr (Or.inl rfl))
  · exact hheaders other (Or.inr (Or.inr hafter))

/-- Change what a block that is not free is for, without a store. -/
theorem relabel {block : Block} (block' : Block)
    (hheap : Heap mem arena (before ++ block :: after) nodes)
    (haddr : block'.addr = block.addr) (hsize : block'.size = block.size)
    (hheld : block.isFree = false) (hheld' : block'.isFree = false)
    (htag : block'.tag = block.tag) : Heap mem arena (before ++ block' :: after) nodes where
  toShape := by
    refine exchange block' hheap.toShape haddr hsize (by simp [hheld']) ?_
    rw [freeLinks_middle_held hheld', ← freeLinks_middle_held hheld]
    exact hheap.nodes_perm
  headers := headers_exchange hheap.headers haddr htag
  ring := hheap.ring

/-- Change what a block that is not free is for, and its size word with it. -/
theorem retag {block : Block} (block' : Block)
    (hheap : Heap mem arena (before ++ block :: after) nodes)
    (haddr : block'.addr = block.addr) (hsize : block'.size = block.size)
    (hheld : block.isFree = false) (hheld' : block'.isFree = false)
    (htag : block'.tag < wordModulus) :
    Heap (store32 mem block.addr block'.tag) arena (before ++ block' :: after) nodes where
  toShape := by
    refine exchange block' hheap.toShape haddr hsize (by simp [hheld']) ?_
    rw [freeLinks_middle_held hheld', ← freeLinks_middle_held hheld]
    exact hheap.nodes_perm
  headers := by
    refine headers_store hheap.tiles ?_ haddr htag
    intro other hother
    exact hheap.headers other (by
      simp only [List.mem_append, List.mem_cons] at hother ⊢
      tauto)
  ring := hheap.ring_store (middle_mem before after block) _

/-- Take a free block off the list. -/
theorem unlink {block : Block} (block' : Block) {pre post : List Nat}
    (hheap : Heap mem arena (before ++ block :: after) (pre ++ block.link :: post))
    (haddr : block'.addr = block.addr) (hsize : block'.size = block.size)
    (hfree : block.isFree = true) (hheld' : block'.isFree = false)
    (htag : block'.tag = block.tag) :
    Heap (listDel mem arena.base block.link) arena (before ++ block' :: after) (pre ++ post) ∧
      Frame mem (listDel mem arena.base block.link) arena (before ++ block :: after) := by
  obtain ⟨hring, huntouched⟩ := ring_del hheap.ring hheap.toShape.placed
  refine ⟨⟨?_, headers_exchange (hheap.headers_untouched huntouched) haddr htag, hring⟩,
    Frame.of_untouched hheap.toShape huntouched⟩
  · refine exchange block' hheap.toShape haddr hsize (by simp [hheld']) ?_
    have hperm := hheap.nodes_perm
    rw [freeLinks_middle_free hfree] at hperm
    rw [freeLinks_middle_held hheld', freeLinks_append]
    exact (List.perm_middle.symm.trans (hperm.trans List.perm_middle)).cons_inv

/-- Put a block with room for the links on the list. -/
theorem link {block : Block} (block' : Block) {pre post : List Nat}
    (hheap : Heap mem arena (before ++ block :: after) (pre ++ post))
    (haddr : block'.addr = block.addr) (hsize : block'.size = block.size)
    (hroom : 8 ≤ block.size) (hheld : block.isFree = false) (hfree' : block'.isFree = true)
    (htag : block'.tag = block.tag) :
    Heap (listInsert mem arena.base block.link (pre.getLastD arena.head) (post.headD arena.head))
        arena (before ++ block' :: after) (pre ++ block.link :: post) ∧
      Frame mem
        (listInsert mem arena.base block.link (pre.getLastD arena.head) (post.headD arena.head))
        arena (before ++ after) := by
  have hshape' : Shape arena (before ++ block' :: after) (pre ++ block.link :: post) := by
    refine exchange block' hheap.toShape haddr hsize (fun _ => hsize ▸ hroom) ?_
    have hlink : block'.link = block.link := by
      rw [Block.link, haddr, Block.link]
    rw [freeLinks_middle_free hfree', hlink]
    have hperm := hheap.nodes_perm
    rw [freeLinks_middle_held hheld, freeLinks_append] at hperm
    exact List.perm_middle.trans ((hperm.cons _).trans List.perm_middle.symm)
  have hperm : (arena.head :: (pre ++ block.link :: post)).Perm
      (block.link :: arena.head :: (pre ++ post)) :=
    (List.perm_middle.cons _).trans (List.Perm.swap _ _ _)
  obtain ⟨hring, huntouched⟩ := ring_insert hheap.ring (hshape'.placed.perm hperm)
  have huntouched' : Untouched mem
      (listInsert mem arena.base block.link (pre.getLastD arena.head) (post.headD arena.head))
      (arena.head :: (pre ++ block.link :: post)) := by
    intro addr haddr'
    exact huntouched addr fun obj hobj => haddr' obj (hperm.mem_iff.mpr hobj)
  refine ⟨⟨hshape', ?_, hring⟩, (Frame.of_untouched hshape' huntouched').mono ?_⟩
  · intro other hother
    rw [load32_untouched huntouched' fun obj hobj => hshape'.header_apart hobj hother]
    exact headers_exchange hheap.headers haddr htag other hother
  · intro other hother _
    simp only [List.mem_append, List.mem_cons] at hother ⊢
    tauto

/-- A block and the next one, made into one block. -/
def merged (block next : Block) : Block := { block with size := block.size + 4 + next.size }

theorem merged_stop {block next : Block} (hnext : next.addr = block.stop) :
    (merged block next).stop = next.stop := by
  simp only [merged, Block.stop] at *
  omega

theorem freeLinks_merged (before after : List Block) (block next : Block) :
    freeLinks (before ++ merged block next :: after) =
      freeLinks (before ++ [block]) ++ freeLinks after := by
  have hfree : (merged block next).isFree = block.isFree := rfl
  have hlink : (merged block next).link = block.link := rfl
  cases hcase : block.isFree <;> simp [freeLinks, hfree, hlink, hcase]

theorem freeLinks_pair (before after : List Block) (block next : Block) :
    freeLinks (before ++ block :: next :: after) =
      freeLinks (before ++ [block]) ++ freeLinks (next :: after) := by
  rw [← freeLinks_append, List.append_assoc, List.singleton_append]

/-- The blocks that remain when two neighbours become one. -/
theorem merge_shape {block next : Block} {nodes' : List Nat}
    (hshape : Shape arena (before ++ block :: next :: after) nodes)
    (hfits : block.isFree = true → 8 ≤ block.size)
    (hnodes : nodes'.Perm (freeLinks (before ++ merged block next :: after))) :
    Shape arena (before ++ merged block next :: after) nodes' := by
  have hshape' : Shape arena (before ++ [block, next] ++ after) nodes := by simpa using hshape
  have hreplaced : Shape arena (before ++ [merged block next] ++ after) nodes' := by
    refine hshape'.replace [merged block next] ?_ ?_ (by simpa using hnodes)
    · intro low high htiles
      obtain ⟨rfl, hnext, rfl⟩ := htiles
      exact ⟨rfl, merged_stop hnext⟩
    · intro other hother hfree
      obtain rfl := List.mem_singleton.mp hother
      have hroom := hfits hfree
      simp only [merged]
      omega
  simpa using hreplaced

/-- The size words when two neighbours become one by a store into the first. -/
theorem merge_headers {block next : Block}
    (hheap : Heap mem arena (before ++ block :: next :: after) nodes)
    (htag : (merged block next).tag = block.size + 4 + next.size) :
    ∀ other ∈ before ++ merged block next :: after,
      load32 (store32 mem block.addr (block.size + 4 + next.size)) other.addr = other.tag := by
  have htiles : Tiles arena.low (before ++ merged block next :: after) arena.high := by
    obtain ⟨hbefore, hnext, hafter⟩ := tiles_middle.mp hheap.tiles
    exact tiles_middle.mpr ⟨hbefore, (merged_stop hnext).symm ▸ hafter⟩
  have hbound : (merged block next).tag < wordModulus := by
    have hmem := middle_mem before after (merged block next)
    have hbounds := tiles_bounds htiles hmem
    have hhigh := arena.high_le
    rw [htag]
    simp only [Block.stop, merged] at hbounds
    omega
  have hstored : ∀ other ∈ before ++ merged block next :: after,
      load32 (store32 mem (merged block next).addr (merged block next).tag) other.addr =
        other.tag := by
    refine headers_store htiles (fun other hother => hheap.headers other ?_) rfl hbound
    simp only [List.mem_append, List.mem_cons] at hother ⊢
    tauto
  rw [htag] at hstored
  exact hstored

/-- Merging touches only the two blocks. -/
theorem merge_frame {block next : Block}
    (hheap : Heap mem arena (before ++ block :: next :: after) nodes) (value : Nat) :
    Frame mem (store32 mem block.addr value) arena (before ++ after) := by
  refine (Frame.of_store hheap.tiles le_rfl ?_).mono ?_
  · simp only [Block.stop]
    omega
  · intro other hother _
    simp only [List.mem_append, List.mem_cons] at hother ⊢
    tauto

/-- A block takes in its right neighbour, which is not on the list. -/
theorem absorb {block next : Block}
    (hheap : Heap mem arena (before ++ block :: next :: after) nodes)
    (hnext : next.isFree = false) (htag : (merged block next).tag = block.size + 4 + next.size) :
    Heap (store32 mem block.addr (block.size + 4 + next.size)) arena
        (before ++ merged block next :: after) nodes ∧
      Frame mem (store32 mem block.addr (block.size + 4 + next.size)) arena (before ++ after) := by
  have hblock := middle_mem before (next :: after) block
  refine ⟨⟨merge_shape hheap.toShape (hheap.fits block hblock) ?_, merge_headers hheap htag,
    hheap.ring_store hblock _⟩, merge_frame hheap _⟩
  have hperm := hheap.nodes_perm
  have hdrop : freeLinks (next :: after) = freeLinks after := by
    simp [freeLinks, hnext]
  rwa [freeLinks_pair, hdrop, ← freeLinks_merged before after block next] at hperm

/-- A block takes in its right neighbour, which is taken off the list. -/
theorem absorb_free {block next : Block} {pre post : List Nat}
    (hheap : Heap mem arena (before ++ block :: next :: after) (pre ++ next.link :: post))
    (hnext : next.isFree = true) (htag : (merged block next).tag = block.size + 4 + next.size) :
    Heap (listDel (store32 mem block.addr (block.size + 4 + next.size)) arena.base next.link) arena
        (before ++ merged block next :: after) (pre ++ post) ∧
      Frame mem
        (listDel (store32 mem block.addr (block.size + 4 + next.size)) arena.base next.link) arena
        (before ++ after) := by
  have hblock := middle_mem before (next :: after) block
  have hring := hheap.ring_store hblock (block.size + 4 + next.size)
  obtain ⟨hring', huntouched⟩ := ring_del hring hheap.toShape.placed
  have hshape : Shape arena (before ++ merged block next :: after) (pre ++ post) := by
    refine merge_shape hheap.toShape (hheap.fits block hblock) ?_
    have hperm := hheap.nodes_perm
    have hkeep : freeLinks (next :: after) = next.link :: freeLinks after := by
      simp [freeLinks, hnext]
    rw [freeLinks_pair, hkeep] at hperm
    rw [freeLinks_merged]
    exact (List.perm_middle.symm.trans (hperm.trans List.perm_middle)).cons_inv
  refine ⟨⟨hshape, ?_, hring'⟩, (merge_frame hheap _).trans
    ((Frame.of_untouched hheap.toShape huntouched).mono ?_)⟩
  · intro other hother
    rw [load32_untouched huntouched, merge_headers hheap htag other hother]
    intro obj hobj
    -- The merged block has the size word of its first part.
    have hold : ∃ owner ∈ before ++ block :: next :: after, owner.addr = other.addr := by
      simp only [List.mem_append, List.mem_cons] at hother ⊢
      rcases hother with h | rfl | h
      · exact ⟨other, Or.inl h, rfl⟩
      · exact ⟨block, Or.inr (Or.inl rfl), rfl⟩
      · exact ⟨other, Or.inr (Or.inr (Or.inr h)), rfl⟩
    obtain ⟨owner, howner, haddr⟩ := hold
    rw [← haddr]
    exact hheap.toShape.header_apart hobj howner
  · intro other hother _
    simp only [List.mem_append, List.mem_cons] at hother ⊢
    tauto

/-- Cut a block that is not free in two. -/
theorem split {block : Block} (first second : Block)
    (hheap : Heap mem arena (before ++ block :: after) nodes) (hheld : block.isFree = false)
    (hfirst : first.isFree = false) (hsecond : second.isFree = false)
    (haddr : first.addr = block.addr) (hjoint : second.addr = first.stop)
    (hstop : second.stop = block.stop) (htag : first.tag < wordModulus)
    (htag' : second.tag < wordModulus) :
    Heap (store32 (store32 mem second.addr second.tag) block.addr first.tag) arena
        (before ++ first :: second :: after) nodes ∧
      Frame mem (store32 (store32 mem second.addr second.tag) block.addr first.tag) arena
        (before ++ after) := by
  have hbounds : block.addr + 4 ≤ second.addr ∧ second.addr + 4 ≤ block.stop := by
    simp only [Block.stop] at *
    omega
  have hshape : Shape arena (before ++ first :: second :: after) nodes := by
    have hshape' : Shape arena (before ++ [block] ++ after) nodes := by simpa using hheap.toShape
    have hreplaced : Shape arena (before ++ [first, second] ++ after) nodes := by
      refine hshape'.replace [first, second] ?_ ?_ ?_
      · intro low high htiles
        obtain ⟨rfl, rfl⟩ := htiles
        exact ⟨haddr, hjoint, hstop⟩
      · simp [hfirst, hsecond]
      · have hperm := hheap.nodes_perm
        rw [freeLinks_middle_held hheld] at hperm
        simpa [freeLinks, hfirst, hsecond] using hperm
    simpa using hreplaced
  have hframe : Frame mem (store32 (store32 mem second.addr second.tag) block.addr first.tag) arena
      (before ++ after) :=
    (Frame.of_store hheap.tiles (by omega) hbounds.2).trans
      (Frame.of_store hheap.tiles le_rfl (by simp only [Block.stop]; omega))
  refine ⟨⟨hshape, ?_, ?_⟩, hframe⟩
  · intro other hother
    have haround : other ∈ before ++ after → load32
        (store32 (store32 mem second.addr second.tag) block.addr first.tag) other.addr =
          other.tag := by
      intro hmem
      have hapart := tiles_around hheap.tiles hmem
      rw [load32_store32_of_apart (by simp only [Apart, Block.stop] at *; omega),
        load32_store32_of_apart (by simp only [Apart, Block.stop] at *; omega)]
      apply hheap.headers
      simp only [List.mem_append, List.mem_cons] at hmem ⊢
      tauto
    simp only [List.mem_append, List.mem_cons] at hother haround
    rcases hother with h | rfl | rfl | h
    · exact haround (Or.inl h)
    · rw [haddr, load32_store32_same, Nat.mod_eq_of_lt htag]
    · rw [load32_store32_of_apart (by simp only [Apart]; omega), load32_store32_same,
        Nat.mod_eq_of_lt htag']
    · exact haround (Or.inr h)
  · -- Both stores go into the block that is cut, which holds no list object.
    refine ring_congr ?_ hheap.ring
    intro obj hobj
    have hapart := hheap.toShape.held_apart hobj (middle_mem before after block) hheld
    simp only [Apart, Block.stop] at hapart hbounds
    exact (store32_sameOn (by simp only [Apart]; omega)).trans
      (store32_sameOn (by simp only [Apart]; omega))

/-- A heap is kept by everything that keeps its size words and list objects. -/
theorem congr (hheap : Heap mem arena blocks nodes)
    (hheaders : ∀ block ∈ blocks, SameOn mem mem' block.addr (block.addr + 4))
    (hobjects : ∀ obj ∈ arena.head :: nodes, SameOn mem mem' obj (obj + 8)) :
    Heap mem' arena blocks nodes where
  toShape := hheap.toShape
  headers := by
    intro block hblock
    rw [load32_congr (hheaders block hblock)]
    exact hheap.headers block hblock
  ring := ring_congr hobjects hheap.ring

/-- A heap does not depend on the payload of a block that is not free. -/
theorem of_payload (hheap : Heap mem arena blocks nodes) {block : Block} (hblock : block ∈ blocks)
    (hheld : block.isFree = false)
    (hsame : ∀ addr, addr < block.link ∨ block.stop ≤ addr → mem' addr = mem addr) :
    Heap mem' arena blocks nodes := by
  refine hheap.congr ?_ ?_
  · intro other hother addr hle hlt
    apply hsame
    rcases tiles_apart hheap.tiles hblock hother with rfl | hapart
    · simp only [Block.link]
      omega
    · simp only [Block.link, Block.stop] at *
      omega
  · intro obj hobj addr hle hlt
    apply hsame
    have hapart := hheap.toShape.held_apart hobj hblock hheld
    simp only [Apart, Block.link, Block.stop] at *
    omega

end Heap

end McuProxy.Memory
