/-
# The functions of the shared-memory allocator on a heap

The chunk behind the header is a heap of blocks. Blocks handed out are `used`,
with the number of added references; the candidate is `spare`; the blocks on
`freeParts` are free, and the list is in address order. Each function is
described by the blocks it leaves.
-/

import McuProxy.Ckits.ShmAlloc
import McuProxy.Memory.BlockHeap

namespace McuProxy.Ckits

open McuProxy.Memory

/-- A chunk that `init_shm_allocator` accepts, aligned. -/
structure ShmChunk where
  start : Nat
  size : Nat
  start_pos : 0 < start
  start_aligned : 4 ∣ start
  size_aligned : 4 ∣ size
  size_ge : 28 ≤ size
  top_lt : start + size < wordModulus

namespace ShmChunk

/-- The heap of the chunk; `freeParts` is at its start. -/
def arena (chunk : ShmChunk) : Arena where
  base := chunk.start
  head := chunk.start
  low := chunk.start + 20
  high := chunk.start + chunk.size
  base_le_head := le_rfl
  base_le_low := Nat.le_add_right _ _
  head_le := by
    have hsize := chunk.size_ge
    have htop := chunk.top_lt
    omega
  high_le := chunk.top_lt.le
  head_outside := Or.inl (by omega)

end ShmChunk

section

variable {mem : Mem} {chunk : ShmChunk} {blocks before after : List Block} {block cur : Block}
  {nodes : List Nat}

theorem block_bounds (htiles : Tiles chunk.arena.low blocks chunk.arena.high)
    (hblock : block ∈ blocks) :
    chunk.start + 20 ≤ block.addr ∧ block.stop ≤ chunk.start + chunk.size ∧
      block.stop < wordModulus := by
  have hbounds := tiles_bounds htiles hblock
  have htop := chunk.top_lt
  exact ⟨hbounds.1, hbounds.2, hbounds.2.trans_lt htop⟩

/-- A block as `shm_recycle` puts it on the list. -/
def freed (block : Block) : Block := { block with status := .free }

/-- The end of a block, as the code computes it from its size word. -/
theorem addrPlus_efftsize (htiles : Tiles chunk.arena.low blocks chunk.arena.high)
    (hblock : block ∈ blocks) :
    addrPlus block.addr (efftsizeToPoolsize block.size) = block.stop := by
  obtain ⟨_, _, hstop⟩ := block_bounds htiles hblock
  simp only [addrPlus, efftsizeToPoolsize, Block.stop, wordModulus] at *
  omega

/-- The growth of a block that takes in another, as the code computes it. -/
theorem plus_efftsize (htiles : Tiles chunk.arena.low blocks chunk.arena.high)
    (hblock : block ∈ blocks) (n : Nat) :
    n + efftsizeToPoolsize block.size = n + 4 + block.size := by
  obtain ⟨_, _, hstop⟩ := block_bounds htiles hblock
  simp only [efftsizeToPoolsize, Block.stop, wordModulus] at *
  omega

/-- A free block below `cur` that does not reach it is passed over. -/
theorem recycleBody_pass (hheap : Heap mem chunk.arena blocks nodes) (hblock : block ∈ blocks)
    (hfree : block.isFree = true) {at' : Nat} (hbelow : block.addr ≤ at') (hgap : block.stop ≠ at')
    (isIn : Bool) : recycleBody block.link ⟨mem, at', isIn⟩ = .cont ⟨mem, at', isIn⟩ := by
  have hheader := hheap.headers block hblock
  rw [tag_of_free hfree] at hheader
  simp only [recycleBody, link_sub, hheader]
  rw [if_neg (not_lt.mpr hbelow), addrPlus_efftsize hheap.tiles hblock, if_neg hgap]

/-- The first free block above `cur` ends the loop. -/
theorem recycleBody_above {state : RecycleState} (habove : state.cur < block.addr) :
    recycleBody block.link state = .brk state := by
  simp only [recycleBody, link_sub]
  rw [if_pos habove]

/-- The loop breaks at the first free block above, if there is one. -/
theorem walk_above {state : RecycleState} (habove : ∀ other ∈ blocks, state.cur < other.addr) :
    (walk recycleBody (freeLinks blocks) state).1.getD chunk.start =
        (freeLinks blocks).headD chunk.start ∧
      (walk recycleBody (freeLinks blocks) state).2 = state := by
  cases hlinks : freeLinks blocks with
  | nil => exact ⟨rfl, rfl⟩
  | cons obj objs =>
      have hobj : obj ∈ freeLinks blocks := by simp [hlinks]
      obtain ⟨owner, howner, _, rfl⟩ := mem_freeLinks.mp hobj
      rw [walk, recycleBody_above (habove owner howner)]
      exact ⟨rfl, rfl⟩

/-- The loop of `shm_recycle` keeps the list it walks. -/
theorem recycle_forEach (hheap : Heap mem chunk.arena blocks nodes) (at' : Nat) :
    listForEach RecycleState.mem chunk.start chunk.start recycleBody ⟨mem, at', false⟩ =
      some ((walk recycleBody nodes ⟨mem, at', false⟩).1.getD chunk.start,
        (walk recycleBody nodes ⟨mem, at', false⟩).2) := by
  refine listForEach_eq_walk
    (fun state : RecycleState => Ring state.mem chunk.start chunk.start nodes)
    (fun _ hring => hring) ?_ hheap.toShape.head_notMem hheap.ring hheap.toShape.length_lt
  intro obj hobj state next hring hbody
  obtain ⟨owner, howner, _, rfl⟩ := hheap.toShape.exists_block hobj
  simp only [recycleBody, link_sub] at hbody
  split at hbody
  · cases hbody
  · split at hbody
    · obtain rfl := Flow.cont.inj hbody
      refine ring_congr ?_ hring
      intro other hother
      exact store32_sameOn (hheap.toShape.header_apart hother howner)
    · obtain rfl := Flow.cont.inj hbody
      exact hring

/-- Without a free left neighbour the loop finds the place of `cur`. -/
theorem walk_apart (hheap : Heap mem chunk.arena (before ++ cur :: after) nodes)
    (hnodes : nodes = freeLinks before ++ freeLinks after)
    (hlast : ∀ front left, before = front ++ [left] → left.isFree = false) :
    (walk recycleBody nodes ⟨mem, cur.addr, false⟩).1.getD chunk.start =
        (freeLinks after).headD chunk.start ∧
      (walk recycleBody nodes ⟨mem, cur.addr, false⟩).2 = ⟨mem, cur.addr, false⟩ := by
  obtain ⟨hbefore, hafter⟩ := tiles_middle.mp hheap.tiles
  have hscan : walk recycleBody (freeLinks before) ⟨mem, cur.addr, false⟩ =
      (none, ⟨mem, cur.addr, false⟩) := by
    apply walk_of_cont
    intro obj hobj
    obtain ⟨owner, howner, hfree, rfl⟩ := mem_freeLinks.mp hobj
    obtain ⟨hbelow, hgap⟩ := stop_ne_of_last_held hbefore hlast howner hfree
    exact recycleBody_pass hheap (List.mem_append_left _ howner) hfree hbelow hgap _
  rw [hnodes, walk_append _ hscan]
  apply walk_above
  intro other hother
  have hle := (tiles_bounds hafter hother).1
  simp only [Block.stop] at hle
  show cur.addr < other.addr
  omega

/-- A free left neighbour takes `cur` in, and the loop goes on from there. -/
theorem walk_join {left : Block}
    (hheap : Heap mem chunk.arena (before ++ left :: cur :: after) nodes)
    (hnodes : nodes = freeLinks before ++ left.link :: freeLinks after)
    (hleft : left.isFree = true) (hcur : cur.status = .used 0) :
    (walk recycleBody nodes ⟨mem, cur.addr, false⟩).1.getD chunk.start =
        (freeLinks after).headD chunk.start ∧
      (walk recycleBody nodes ⟨mem, cur.addr, false⟩).2 =
        ⟨store32 mem left.addr (left.size + 4 + cur.size), left.addr, true⟩ := by
  obtain ⟨hbefore, hjoint, hafter⟩ := tiles_middle.mp hheap.tiles
  have hleftMem : left ∈ before ++ left :: cur :: after := by simp
  have hcurMem : cur ∈ before ++ left :: cur :: after := by simp
  have hleftStop : left.addr < cur.addr := by
    simp only [Block.stop] at hjoint
    omega
  have hscan : walk recycleBody (freeLinks before) ⟨mem, cur.addr, false⟩ =
      (none, ⟨mem, cur.addr, false⟩) := by
    apply walk_of_cont
    intro obj hobj
    obtain ⟨owner, howner, hfree, rfl⟩ := mem_freeLinks.mp hobj
    have hle := (tiles_bounds hbefore howner).2
    refine recycleBody_pass hheap (List.mem_append_left _ howner) hfree ?_ ?_ _
    · simp only [Block.stop] at hle
      omega
    · omega
  have hleftHeader := hheap.headers left hleftMem
  have hcurHeader := hheap.headers cur hcurMem
  rw [tag_of_free hleft] at hleftHeader
  rw [tag_of_used hcur] at hcurHeader
  have hturn : recycleBody left.link ⟨mem, cur.addr, false⟩ =
      .cont ⟨store32 mem left.addr (left.size + 4 + cur.size), left.addr, true⟩ := by
    simp only [recycleBody, link_sub, hleftHeader, hcurHeader]
    rw [if_neg (not_lt.mpr hleftStop.le), addrPlus_efftsize hheap.tiles hleftMem,
      if_pos hjoint.symm, plus_efftsize hheap.tiles hcurMem]
  rw [hnodes, walk_append _ hscan, walk, hturn]
  apply walk_above
  intro other hother
  have hle := (tiles_bounds hafter hother).1
  simp only [Block.stop] at hle
  show left.addr < other.addr
  omega

/-- The blocks from a free one on, after it has taken in a free right neighbour. -/
def joinRight (block : Block) : List Block → List Block
  | [] => [block]
  | next :: rest => if next.isFree then Heap.merged block next :: rest else block :: next :: rest

/-- What `shm_recycle` does after its loop and the insertion, at the list object
`obj` where the loop ended. -/
def finishRecycle (mem : Mem) (allocator cur obj : Nat) : Mem :=
  let node := obj - 4
  if obj ≠ allocator then
    if addrPlus cur (efftsizeToPoolsize (load32 mem cur)) = node then
      listDel (store32 mem cur (load32 mem cur + efftsizeToPoolsize (load32 mem node)))
        allocator obj
    else mem
  else mem

theorem shmRecycle_eq {cur obj : Nat} (hcur : cur ≠ 0) {state : RecycleState}
    (hloop : listForEach RecycleState.mem chunk.start chunk.start recycleBody ⟨mem, cur, false⟩ =
      some (obj, state)) :
    shmRecycle mem chunk.start cur = some (finishRecycle (if state.isIn then state.mem
      else listAddTail state.mem chunk.start (state.cur + 4) obj) chunk.start state.cur obj) := by
  rw [shmRecycle, if_neg hcur, hloop]
  rfl

/-- A free right neighbour is the block the loop ended at, and is taken in. -/
theorem finishRecycle_free {next : Block} {rest : List Block}
    (hheap : Heap mem chunk.arena (before ++ block :: next :: rest)
      (freeLinks (before ++ block :: next :: rest)))
    (hfree : block.isFree = true) (hnext : next.isFree = true) :
    Heap (finishRecycle mem chunk.start block.addr next.link) chunk.arena
        (before ++ Heap.merged block next :: rest)
        (freeLinks (before ++ Heap.merged block next :: rest)) ∧
      Frame mem (finishRecycle mem chunk.start block.addr next.link) chunk.arena
        (before ++ next :: rest) := by
  have hblock : block ∈ before ++ block :: next :: rest := by simp
  have hnextMem : next ∈ before ++ block :: next :: rest := by simp
  have hheader := hheap.headers block hblock
  have hnextHeader := hheap.headers next hnextMem
  rw [tag_of_free hfree] at hheader
  rw [tag_of_free hnext] at hnextHeader
  have hend : addrPlus block.addr (efftsizeToPoolsize block.size) = next.addr :=
    (addrPlus_efftsize hheap.tiles hblock).trans (tiles_middle.mp hheap.tiles).2.1.symm
  have hne : next.link ≠ chunk.start := by
    have hlow := (block_bounds hheap.tiles hnextMem).1
    simp only [Block.link]
    omega
  have hresult : finishRecycle mem chunk.start block.addr next.link =
      listDel (store32 mem block.addr (block.size + 4 + next.size)) chunk.start next.link := by
    simp only [finishRecycle, link_sub, hheader, hnextHeader]
    rw [if_pos hne, if_pos hend, plus_efftsize hheap.tiles hnextMem]
  have hsplit : freeLinks (before ++ block :: next :: rest) =
      freeLinks (before ++ [block]) ++ next.link :: freeLinks rest := by
    rw [Heap.freeLinks_pair]
    simp [freeLinks, hnext]
  rw [hsplit] at hheap
  have hmergedFree : (Heap.merged block next).isFree = true := hfree
  obtain ⟨hmerged, hframe⟩ := hheap.absorb_free hnext (tag_of_free hmergedFree)
  rw [hresult, Heap.freeLinks_merged]
  refine ⟨hmerged, hframe.mono ?_⟩
  intro other hother hheld
  simp only [List.mem_append, List.mem_cons] at hother ⊢
  rcases hother with h | rfl | h
  · exact Or.inl h
  · exact absurd hnext (by simp [hheld])
  · exact Or.inr h

/-- With no free right neighbour, the loop ended beyond it, or at the head. -/
theorem finishRecycle_held {next : Block} {rest : List Block}
    (hheap : Heap mem chunk.arena (before ++ block :: next :: rest)
      (freeLinks (before ++ block :: next :: rest)))
    (hfree : block.isFree = true) :
    finishRecycle mem chunk.start block.addr ((freeLinks rest).headD chunk.start) = mem := by
  have hblock : block ∈ before ++ block :: next :: rest := by simp
  have hheader := hheap.headers block hblock
  rw [tag_of_free hfree] at hheader
  have hend := addrPlus_efftsize hheap.tiles hblock
  obtain ⟨hnext, hrest⟩ := (tiles_middle.mp hheap.tiles).2
  cases hlinks : freeLinks rest with
  | nil => simp [finishRecycle]
  | cons obj objs =>
      have hobj : obj ∈ freeLinks rest := by simp [hlinks]
      obtain ⟨owner, howner, _, rfl⟩ := mem_freeLinks.mp hobj
      have hlow := (tiles_bounds hrest howner).1
      simp only [finishRecycle, link_sub, hheader, List.headD_cons]
      have hgap : block.stop ≠ owner.addr := by
        simp only [Block.stop] at *
        omega
      rw [hend, if_neg hgap, ite_self]

/-- The end of `shm_recycle` joins a block with its right neighbour, if that is
free. -/
theorem finishRecycle_spec
    (hheap : Heap mem chunk.arena (before ++ block :: after) (freeLinks (before ++ block :: after)))
    (hfree : block.isFree = true) :
    Heap (finishRecycle mem chunk.start block.addr ((freeLinks after).headD chunk.start))
      chunk.arena
        (before ++ joinRight block after) (freeLinks (before ++ joinRight block after)) ∧
      Frame mem (finishRecycle mem chunk.start block.addr ((freeLinks after).headD chunk.start))
        chunk.arena (before ++ after) := by
  cases after with
  | nil =>
      have hdone : finishRecycle mem chunk.start block.addr ((freeLinks []).headD chunk.start) =
          mem := by
        simp [finishRecycle, freeLinks]
      rw [hdone]
      exact ⟨hheap, Frame.refl _ _ _⟩
  | cons next rest =>
      by_cases hnext : next.isFree = true
      · have hobj : (freeLinks (next :: rest)).headD chunk.start = next.link := by
          simp [freeLinks, hnext]
        rw [hobj, joinRight, if_pos hnext]
        exact finishRecycle_free hheap hfree hnext
      · have hskip : freeLinks (next :: rest) = freeLinks rest := by
          simp [freeLinks, hnext]
        rw [hskip, finishRecycle_held hheap hfree, joinRight, if_neg hnext]
        exact ⟨hheap, Frame.refl _ _ _⟩

/-- How `shm_recycle` deals with the left side of a block: the blocks that remain
before it, and the free block it becomes part of. -/
inductive JoinLeft : List Block → Block → List Block → Block → Prop
  | apart {before : List Block} {cur : Block}
      (hlast : ∀ front left, before = front ++ [left] → left.isFree = false) :
      JoinLeft before cur before (freed cur)
  | joined {front : List Block} {left cur : Block} (hleft : left.isFree = true) :
      JoinLeft (front ++ [left]) cur front (Heap.merged left cur)

/-- `shm_recycle` of a block with a free left neighbour, which takes it in. -/
theorem shmRecycle_joined {front : List Block} {left : Block}
    (hheap : Heap mem chunk.arena (front ++ left :: cur :: after)
      (freeLinks (front ++ left :: cur :: after)))
    (hcur : cur.status = .used 0) (hcurNe : cur.addr ≠ 0) (hleft : left.isFree = true) :
    ∃ mem', shmRecycle mem chunk.start cur.addr = some mem' ∧
      Heap mem' chunk.arena (front ++ joinRight (Heap.merged left cur) after)
        (freeLinks (front ++ joinRight (Heap.merged left cur) after)) ∧
      Frame mem mem' chunk.arena (front ++ [left] ++ after) := by
  have hheld := held_of_used hcur
  have hloop := recycle_forEach hheap cur.addr
  have hnodes : freeLinks (front ++ left :: cur :: after) =
      freeLinks front ++ left.link :: freeLinks after := by
    rw [freeLinks_middle_free hleft]
    simp [freeLinks, hheld]
  obtain ⟨hobj, hstate⟩ := walk_join hheap hnodes hleft hcur
  rw [hobj, hstate] at hloop
  have hmergedFree : (Heap.merged left cur).isFree = true := hleft
  obtain ⟨hmerged, hframe⟩ := hheap.absorb hheld (tag_of_free hmergedFree)
  have hnodes' : freeLinks (front ++ Heap.merged left cur :: after) =
      freeLinks front ++ left.link :: freeLinks after := freeLinks_middle_free hmergedFree
  rw [hnodes, ← hnodes'] at hmerged
  obtain ⟨hfinal, hframe'⟩ := finishRecycle_spec hmerged hmergedFree
  refine ⟨_, shmRecycle_eq hcurNe hloop, hfinal, (hframe.trans hframe').mono ?_⟩
  intro other hother hotherHeld
  simp only [List.mem_append, List.mem_singleton] at hother ⊢
  rcases hother with (h | rfl) | h
  · exact Or.inl h
  · exact absurd hleft (by simp [hotherHeld])
  · exact Or.inr h

/-- `shm_recycle` of a block that becomes a free block of its own. -/
theorem shmRecycle_apart
    (hheap : Heap mem chunk.arena (before ++ cur :: after) (freeLinks (before ++ cur :: after)))
    (hcur : cur.status = .used 0) (hcurNe : cur.addr ≠ 0) (hsize : 8 ≤ cur.size)
    (hlast : ∀ front left, before = front ++ [left] → left.isFree = false) :
    ∃ mem', shmRecycle mem chunk.start cur.addr = some mem' ∧
      Heap mem' chunk.arena (before ++ joinRight (freed cur) after)
        (freeLinks (before ++ joinRight (freed cur) after)) ∧
      Frame mem mem' chunk.arena (before ++ after) := by
  have hheld := held_of_used hcur
  have hloop := recycle_forEach hheap cur.addr
  have hnodes : freeLinks (before ++ cur :: after) = freeLinks before ++ freeLinks after := by
    rw [freeLinks_middle_held hheld, freeLinks_append]
  obtain ⟨hobj, hstate⟩ := walk_apart hheap hnodes hlast
  rw [hobj, hstate] at hloop
  rw [hnodes] at hheap
  have hfreed : (freed cur).isFree = true := rfl
  have htag : (freed cur).tag = cur.tag := by
    rw [tag_of_used hcur]
    exact tag_of_free hfreed
  obtain ⟨hlinked, hframe⟩ := hheap.link (freed cur) rfl rfl hsize hheld hfreed htag
  have hnodes' : freeLinks (before ++ freed cur :: after) =
      freeLinks before ++ cur.link :: freeLinks after := freeLinks_middle_free hfreed
  rw [← hnodes'] at hlinked
  obtain ⟨hfinal, hframe'⟩ := finishRecycle_spec hlinked hfreed
  have htail : listAddTail mem chunk.start (cur.addr + 4) ((freeLinks after).headD chunk.start) =
      listInsert mem chunk.start cur.link ((freeLinks before).getLastD chunk.start)
        ((freeLinks after).headD chunk.start) := listAddTail_eq hheap.ring _
  have hrecycle := shmRecycle_eq hcurNe hloop
  simp only [Bool.false_eq_true, if_false, htail] at hrecycle
  exact ⟨_, hrecycle, hfinal, hframe.trans hframe'⟩

/-- `shm_recycle` of a block that has room for links, or a free left neighbour. -/
theorem shmRecycle_spec
    (hheap : Heap mem chunk.arena (before ++ cur :: after) (freeLinks (before ++ cur :: after)))
    (hcur : cur.status = .used 0)
    (hroom : 8 ≤ cur.size ∨ ∃ front left, before = front ++ [left] ∧ left.isFree = true) :
    ∃ mem' front grown, shmRecycle mem chunk.start cur.addr = some mem' ∧
      JoinLeft before cur front grown ∧
      Heap mem' chunk.arena (front ++ joinRight grown after)
        (freeLinks (front ++ joinRight grown after)) ∧
      Frame mem mem' chunk.arena (before ++ after) := by
  have hcurNe : cur.addr ≠ 0 := by
    have hlow := (block_bounds hheap.tiles (show cur ∈ before ++ cur :: after by simp)).1
    omega
  by_cases hlast : ∃ front left, before = front ++ [left] ∧ left.isFree = true
  · obtain ⟨front, left, rfl, hleft⟩ := hlast
    rw [List.append_assoc, List.singleton_append] at hheap
    obtain ⟨mem', hrecycle, hfinal, hframe⟩ := shmRecycle_joined hheap hcur hcurNe hleft
    exact ⟨mem', front, Heap.merged left cur, hrecycle, .joined hleft, hfinal, hframe⟩
  · have hlast' : ∀ front left, before = front ++ [left] → left.isFree = false := by
      intro front left heq
      by_contra hfree
      exact hlast ⟨front, left, heq, by simpa using hfree⟩
    obtain ⟨mem', hrecycle, hfinal, hframe⟩ :=
      shmRecycle_apart hheap hcur hcurNe (hroom.resolve_right hlast) hlast'
    exact ⟨mem', before, freed cur, hrecycle, .apart hlast', hfinal, hframe⟩

/-- The block that a recycled one becomes part of is free. -/
theorem JoinLeft.isFree {front : List Block} {grown : Block}
    (hjoin : JoinLeft before cur front grown) : grown.isFree = true := by
  cases hjoin with
  | apart _ => rfl
  | joined hleft => exact hleft

theorem mem_joinRight {other : Block} (hother : other ∈ joinRight block after)
    (hfree : block.isFree = true) : other.isFree = true ∨ other ∈ after := by
  cases after with
  | nil =>
      obtain rfl := List.mem_singleton.mp hother
      exact Or.inl hfree
  | cons next rest =>
      simp only [joinRight] at hother
      split at hother
      · rcases List.mem_cons.mp hother with rfl | hrest
        · exact Or.inl hfree
        · exact Or.inr (List.mem_cons_of_mem _ hrest)
      · rcases List.mem_cons.mp hother with rfl | hrest
        · exact Or.inl hfree
        · exact Or.inr hrest

/-- Recycling makes free blocks, and changes no other. -/
theorem recycled_mem {front : List Block} {grown : Block} (hjoin : JoinLeft before cur front grown)
    {other : Block} (hother : other ∈ front ++ joinRight grown after) :
    other.isFree = true ∨ other ∈ before ++ after := by
  rcases List.mem_append.mp hother with hfront | hright
  · right
    cases hjoin with
    | apart _ => exact List.mem_append_left _ hfront
    | joined _ => simp [hfront]
  · rcases mem_joinRight hright hjoin.isFree with hfree | hafter
    · exact Or.inl hfree
    · exact Or.inr (List.mem_append_right _ hafter)

/-- A recycled block lies in one of the free blocks. -/
theorem exists_cover {front : List Block} {grown : Block} (hjoin : JoinLeft before cur front grown)
    (hbefore : ∀ front left, before = front ++ [left] → left.stop = cur.addr) :
    ∃ owner ∈ front ++ joinRight grown after, owner.isFree = true ∧ owner.addr ≤ cur.addr ∧
      cur.stop ≤ owner.stop := by
  have hgrown : grown.addr ≤ cur.addr ∧ cur.stop ≤ grown.stop := by
    cases hjoin with
    | apart _ => exact ⟨le_rfl, le_rfl⟩
    | @joined front left _ _ =>
        have hjoint := hbefore front left rfl
        simp only [Heap.merged, Block.stop] at *
        omega
  have hright : ∃ owner ∈ joinRight grown after, owner.isFree = true ∧ owner.addr = grown.addr ∧
      grown.stop ≤ owner.stop := by
    cases after with
    | nil => exact ⟨grown, by simp [joinRight], hjoin.isFree, rfl, le_rfl⟩
    | cons next rest =>
        simp only [joinRight]
        split
        · refine ⟨Heap.merged grown next, List.mem_cons_self, hjoin.isFree, rfl, ?_⟩
          simp only [Heap.merged, Block.stop]
          omega
        · exact ⟨grown, List.mem_cons_self, hjoin.isFree, rfl, le_rfl⟩
  obtain ⟨owner, howner, hfree, haddr, hstop⟩ := hright
  exact ⟨owner, List.mem_append_right _ howner, hfree, haddr ▸ hgrown.1, hgrown.2.trans hstop⟩

theorem filter_joinRight {test : Block → Bool}
    (htest : ∀ other : Block, other.isFree = true → test other = false)
    (hfree : block.isFree = true) (after : List Block) :
    (joinRight block after).filter test = after.filter test := by
  have hblock := htest block hfree
  cases after with
  | nil => simp [joinRight, hblock]
  | cons next rest =>
      simp only [joinRight]
      split
      · rename_i hnext
        have hmerged := htest (Heap.merged block next) hfree
        simp [hmerged, htest next hnext]
      · simp [hblock]

/-- Recycling keeps the blocks that are not free, whichever are asked for. -/
theorem recycled_filter {front : List Block} {grown : Block}
    (hjoin : JoinLeft before cur front grown)
    {test : Block → Bool} (htest : ∀ other : Block, other.isFree = true → test other = false) :
    (front ++ joinRight grown after).filter test = (before ++ after).filter test := by
  have hright := filter_joinRight htest hjoin.isFree after
  cases hjoin with
  | apart _ => simpa using hright
  | @joined _ left _ hleft => simpa [htest left hleft] using hright

theorem joinRight_separate (block : Block) (hafter : Separate after) :
    Separate (joinRight block after) := by
  cases after with
  | nil => simp [joinRight, Separate]
  | cons next rest =>
      simp only [joinRight]
      split
      · rename_i hnext
        cases rest with
        | nil => simp [Separate]
        | cons second rest =>
            obtain ⟨hfirst, hrest⟩ := List.isChain_cons_cons.mp hafter
            exact List.isChain_cons_cons.mpr ⟨fun _ => hfirst hnext, hrest⟩
      · rename_i hnext
        exact List.isChain_cons_cons.mpr ⟨fun _ => by simpa using hnext, hafter⟩

/-- Recycling leaves no two free blocks adjacent. -/
theorem recycled_separate {front : List Block} {grown : Block}
    (hjoin : JoinLeft before cur front grown) (hseparate : Separate (before ++ cur :: after)) :
    Separate (front ++ joinRight grown after) := by
  obtain ⟨hbefore, hcurAfter, _⟩ := List.isChain_append.mp hseparate
  have hright := joinRight_separate grown hcurAfter.tail
  -- What stands before the recycled block does not end in a free one.
  have hfront : Separate front ∧ ∀ last ∈ front.getLast?, last.isFree = false := by
    cases hjoin with
    | apart hlast =>
        refine ⟨hbefore, ?_⟩
        intro last hmem
        obtain ⟨init, heq⟩ := List.getLast?_eq_some_iff.mp hmem
        exact hlast init last heq
    | joined hleft =>
        obtain ⟨hinit, _, hjoint⟩ := List.isChain_append.mp hbefore
        refine ⟨hinit, ?_⟩
        intro last hmem
        by_contra hfree
        have hnot := hjoint last hmem _ rfl (by simpa using hfree)
        simp [hleft] at hnot
  refine List.isChain_append.mpr ⟨hfront.1, hright, ?_⟩
  intro last hlast first _ hfree
  exact absurd hfree (by simp [hfront.2 last hlast])

/-- Sizes that are multiples of four, and at least `least`. -/
def SizesOk (least : Nat) (blocks : List Block) : Prop :=
  ∀ block ∈ blocks, 4 ∣ block.size ∧ least ≤ block.size

theorem merged_size_ok {least : Nat} {next : Block} (hblock : 4 ∣ block.size ∧ least ≤ block.size)
    (hnext : 4 ∣ next.size) :
    4 ∣ (Heap.merged block next).size ∧ least ≤ (Heap.merged block next).size := by
  simp only [Heap.merged]
  omega

theorem joinRight_sizes {least : Nat} (hblock : 4 ∣ block.size ∧ least ≤ block.size)
    (hafter : SizesOk least after) : SizesOk least (joinRight block after) := by
  cases after with
  | nil => simpa [joinRight, SizesOk] using hblock
  | cons next rest =>
      have hnext := hafter next List.mem_cons_self
      simp only [joinRight]
      split
      · refine List.forall_mem_cons.mpr ⟨merged_size_ok hblock hnext.1, ?_⟩
        exact fun other hother => hafter other (List.mem_cons_of_mem _ hother)
      · exact List.forall_mem_cons.mpr ⟨hblock, hafter⟩

/-- Recycling keeps the bounds on sizes. -/
theorem recycled_sizes {least : Nat} {front : List Block} {grown : Block}
    (hjoin : JoinLeft before cur front grown) (hsizes : SizesOk least (before ++ cur :: after)) :
    SizesOk least (front ++ joinRight grown after) := by
  have hafter : SizesOk least after := fun other hother => hsizes other (by simp [hother])
  have hcur := hsizes cur (by simp)
  have hparts : SizesOk least front ∧ 4 ∣ grown.size ∧ least ≤ grown.size := by
    cases hjoin with
    | apart _ => exact ⟨fun other hother => hsizes other (by simp [hother]), hcur⟩
    | @joined _ left _ hleft =>
        refine ⟨fun other hother => hsizes other (by simp [hother]), ?_⟩
        exact merged_size_ok (hsizes left (by simp)) hcur.1
  intro other hother
  rcases List.mem_append.mp hother with hfront | hright
  · exact hparts.1 other hfront
  · exact joinRight_sizes hparts.2 hafter other hright

/-- A block set aside by the allocator. -/
def setAside (block : Block) : Block := { block with status := .spare }

theorem freeRuns_joinRight (hfree : block.isFree = true) (after : List Block) (run : Nat) :
    freeRuns run (joinRight block after) = freeRuns (run + 4 + block.size) after := by
  have hblock := isUsed_of_free hfree
  cases after with
  | nil => simp [joinRight, freeRuns, hblock]
  | cons next rest =>
      simp only [joinRight]
      split
      · rename_i hnext
        have hmerged : (Heap.merged block next).isUsed = false := hblock
        have hsum : run + 4 + (Heap.merged block next).size =
          run + 4 + block.size + 4 + next.size := by
          simp only [Heap.merged]
          omega
        simp [freeRuns, hmerged, isUsed_of_free hnext, hsum]
      · simp [freeRuns, hblock]

/-- Recycling keeps the contiguous stretches of free memory. -/
theorem recycled_runs {front : List Block} {grown : Block} (hjoin : JoinLeft before cur front grown)
    (run : Nat) :
    freeRuns run (front ++ joinRight grown after) =
      freeRuns run (before ++ setAside cur :: after) := by
  have hright := freeRuns_joinRight hjoin.isFree after
  have haside : (setAside cur).isUsed = false := rfl
  cases hjoin with
  | apart _ =>
      apply freeRuns_middle
      intro run
      rw [hright]
      simp only [freeRuns, haside, Bool.false_eq_true, if_false]
      rfl
  | @joined _ left _ hleft =>
      rw [List.append_assoc, List.singleton_append]
      apply freeRuns_middle
      intro run
      rw [hright]
      have hsum : run + 4 + (Heap.merged left cur).size =
          run + 4 + left.size + 4 + (setAside cur).size := by
        simp only [Heap.merged, setAside]
        omega
      simp [freeRuns, haside, isUsed_of_free hleft, hsum]

end

end McuProxy.Ckits
