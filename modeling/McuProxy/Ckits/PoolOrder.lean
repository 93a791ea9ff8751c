/-
# The order of the free list of a pool

`pool_malloc` takes the first block that is large enough, which is the smallest
one as long as the free list is ordered by size. The list is meant to be: a block
that goes on it is put where a search for its size stops. But it is put behind the
block at which the search stopped, and in front of all others when there was none.
The order survives only when the list is empty or already has a block of the very
same size.

What a call links, and among which nodes, can be told from the state in which the
call arrives.
-/

import McuProxy.Ckits.PoolBounds

namespace McuProxy.Ckits.Pool

open McuProxy.Memory McuProxy.Math

/-- The size of the free block with the list object `obj`. -/
def slotSize (mem : Mem) (obj : Nat) : Nat := load32 mem (obj - 4)

/-- The free list is in non-decreasing order of size. -/
def SizeOrdered (allocator : Nat) (mem : Mem) : Prop :=
  OrderedBy (slotSize mem) (freeSlots mem allocator)

instance (allocator : Nat) (mem : Mem) : Decidable (SizeOrdered allocator mem) :=
  inferInstanceAs (Decidable (OrderedBy _ _))

/-- What a request takes is a smallest of the free blocks that are large enough. -/
def TakesSmallest (allocator : Nat) (state : PoolState) (call : PoolCall) : Prop :=
  ∀ size ∈ call.request, ∀ result ∈ poolMalloc state.mem allocator size, result.1 ≠ 0 →
    result.1 ∈ freeSlots state.mem allocator ∧ size ≤ slotSize state.mem result.1 ∧
      ∀ obj ∈ freeSlots state.mem allocator, size ≤ slotSize state.mem obj →
        slotSize state.mem result.1 ≤ slotSize state.mem obj

instance (allocator : Nat) (state : PoolState) (call : PoolCall) :
    Decidable (TakesSmallest allocator state call) :=
  inferInstanceAs (Decidable
    (∀ size ∈ call.request, ∀ result ∈ poolMalloc state.mem allocator size, _))

/-- A call takes a smallest block and leaves the list ordered. -/
def BestFit (allocator : Nat) (state : PoolState) (call : PoolCall) : Prop :=
  TakesSmallest allocator state call ∧
    ∀ next ∈ poolStep allocator state call, SizeOrdered allocator next.mem

instance (allocator : Nat) (state : PoolState) (call : PoolCall) :
    Decidable (BestFit allocator state call) :=
  inferInstanceAs (Decidable (_ ∧ ∀ next ∈ poolStep allocator state call, _))

/-- What is left of the first block that is large enough for a request, if it is
cut, and the nodes that the rest is linked into. -/
def leftover (mem : Mem) (allocator size : Nat) : Option (Nat × List Nat) :=
  if size = 0 then none
  else
    ((freeSlots mem allocator).find? fun obj => size ≤ slotSize mem obj).bind fun obj =>
      if slotSize mem obj > align8Bytes size + sizeofFreePool then
        some (slotSize mem obj - align8Bytes size - 4, (freeSlots mem allocator).erase obj)
      else none

/-- The size of the block that a call links, and the nodes that it is linked into. -/
def newcomer (allocator : Nat) (mem : Mem) : PoolCall → Option (Nat × List Nat)
  | .malloc size => leftover mem allocator size
  | .strdup s => leftover mem allocator (s.length + 1)
  | .free unit =>
      let nodes := freeSlots mem allocator
      let size := slotSize mem unit
      some (joinedSize mem (unit - 4) (unit + size) size nodes,
        apartNodes mem (unit - 4) (unit + size) nodes)
  | .write _ _ => none

/-- The block that a call links finds an empty list, or one of its own size. -/
def Matched (allocator : Nat) (state : PoolState) (call : PoolCall) : Prop :=
  ∀ entry ∈ newcomer allocator state.mem call,
    entry.2 = [] ∨ ∃ other ∈ entry.2, slotSize state.mem other = entry.1

instance (allocator : Nat) (state : PoolState) (call : PoolCall) :
    Decidable (Matched allocator state call) :=
  inferInstanceAs (Decidable (∀ entry ∈ newcomer allocator state.mem call, _))

/-- The free list after a call: some nodes are gone, and what is left has the
newcomer in it. All of them keep their sizes. -/
inductive Listed (allocator : Nat) (mem mem' : Mem) : Option (Nat × List Nat) → Prop
  | fewer (hsub : (freeSlots mem' allocator).Sublist (freeSlots mem allocator))
      (hsame : ∀ obj ∈ freeSlots mem' allocator, slotSize mem' obj = slotSize mem obj) :
      Listed allocator mem mem' none
  | more (size : Nat) (rest : List Nat) (hsub : rest.Sublist (freeSlots mem allocator))
      (hlisted : Relisted mem mem' allocator size rest) :
      Listed allocator mem mem' (some (size, rest))

section

variable {mem mem' mem'' : Mem} {allocator : Nat} {pool : PoolChunk} {size unit : Nat}
  {blocks before after : List Block} {block : Block} {nodes : List Nat} {owned : List Grant}

/-- The order survives exactly when the newcomer is matched. -/
theorem Listed.ordered_iff {entry : Option (Nat × List Nat)}
    (hlisted : Listed allocator mem mem' entry)
    (hordered : SizeOrdered allocator mem) :
    SizeOrdered allocator mem' ↔
      ∀ found ∈ entry, found.2 = [] ∨ ∃ other ∈ found.2, slotSize mem other = found.1 := by
  cases hlisted with
  | fewer hsub hsame =>
      refine iff_of_true (OrderedBy.congr (fun obj hobj => (hsame obj hobj).symm) ?_) (by simp)
      exact List.Pairwise.sublist hsub hordered
  | more size rest hsub hrelisted =>
      obtain ⟨link, hlist, hsize, hsame⟩ := hrelisted
      have hsame' : ∀ obj ∈ rest, slotSize mem obj = slotSize mem' obj := fun obj hobj =>
        (hsame obj hobj).symm
      have hrest : OrderedBy (slotSize mem') rest :=
        OrderedBy.congr hsame' (List.Pairwise.sublist hsub hordered)
      have hplace : freeSlots mem' allocator =
          insertBehind (fun obj => decide (slotSize mem' link ≤ slotSize mem' obj)) link rest := by
        rw [hlist]
        refine insertBehind_congr link fun obj hobj => ?_
        rw [← hsame' obj hobj, slotSize, slotSize, hsize]
      rw [SizeOrdered, hplace, orderedBy_insertBehind_iff hrest]
      have hequal : (∃ other ∈ rest, slotSize mem' other = slotSize mem' link) ↔
          ∃ other ∈ rest, slotSize mem other = size := by
        refine exists_congr fun other => and_congr_right fun hother => ?_
        rw [hsame' other hother, slotSize, slotSize, hsize]
      rw [hequal]
      simp

/-- The free list does not depend on the payload of a block in use. -/
theorem Listed.of_payload {entry : Option (Nat × List Nat)}
    (hlisted : Listed pool.allocator mem mem' entry)
    (hheap : Heap mem' pool.arena blocks nodes) (hheap' : Heap mem'' pool.arena blocks nodes) :
    Listed pool.allocator mem mem'' entry := by
  have hslots : freeSlots mem'' pool.allocator = freeSlots mem' pool.allocator := by
    rw [freeSlots_eq hheap, freeSlots_eq hheap']
  have hsizes : ∀ obj ∈ freeSlots mem' pool.allocator, slotSize mem'' obj = slotSize mem' obj := by
    intro obj hobj
    rw [freeSlots_eq hheap] at hobj
    obtain ⟨owner, howner, hfree, rfl⟩ := hheap.toShape.exists_block hobj
    exact header_kept hheap hheap' howner howner hfree
  cases hlisted with
  | fewer hsub hsame =>
      refine .fewer (hslots ▸ hsub) fun obj hobj => ?_
      rw [hslots] at hobj
      exact (hsizes obj hobj).trans (hsame obj hobj)
  | more size rest hsub hrelisted =>
      obtain ⟨link, hlist, hsize, hsame⟩ := hrelisted
      refine .more size rest hsub ⟨link, hslots.trans hlist, ?_, fun obj hobj => ?_⟩
      · have hlink : link ∈ freeSlots mem' pool.allocator := by
          rw [hlist, mem_insertBehind]
          exact Or.inl rfl
        exact (hsizes link hlink).trans hsize
      · have hmem : obj ∈ freeSlots mem' pool.allocator := by
          rw [hlist, mem_insertBehind]
          exact Or.inr hobj
        exact (hsizes obj hmem).trans (hsame obj hobj)

/-- A request for which no node is large enough cuts none. -/
theorem leftover_of_none
    (hsmall : size = 0 ∨ ∀ obj ∈ freeSlots mem allocator, slotSize mem obj < size) :
    leftover mem allocator size = none := by
  by_cases hzero : size = 0
  · simp [leftover, hzero]
  · have hfind : (freeSlots mem allocator).find? (fun obj => size ≤ slotSize mem obj) = none := by
      rw [List.find?_eq_none]
      intro obj hobj
      simpa using (hsmall.resolve_left hzero) obj hobj
    rw [leftover, if_neg hzero, hfind, Option.bind_none]

/-- Otherwise it may cut the first one that is. -/
theorem leftover_of_split {pre post : List Nat} {obj : Nat}
    (hslots : freeSlots mem allocator = pre ++ obj :: post) (hsize : 0 < size)
    (hpre : ∀ other ∈ pre, slotSize mem other < size) (hfit : size ≤ slotSize mem obj) :
    leftover mem allocator size =
      if slotSize mem obj > align8Bytes size + sizeofFreePool then
        some (slotSize mem obj - align8Bytes size - 4, pre ++ post)
      else none := by
  have hfind : (freeSlots mem allocator).find? (fun other => size ≤ slotSize mem other) =
    some obj := by
    rw [List.find?_eq_some_iff_append]
    exact ⟨by simpa using hfit, pre, post, hslots,
      fun other hother => by simpa using hpre other hother⟩
  have hnotMem : obj ∉ pre := fun hmem => not_lt.mpr hfit (hpre obj hmem)
  rw [leftover, if_neg (by omega), hfind, Option.bind_some, hslots,
    List.erase_append_right _ hnotMem, List.erase_cons_head]

/-- `pool_malloc` takes the first node that is large enough and links what is left
of it. -/
theorem malloc_listed (hinv : PoolInv mem pool blocks nodes) (size : Nat) :
    ∃ unit mem', poolMalloc mem pool.allocator size = some (unit, mem') ∧
      Listed pool.allocator mem mem' (leftover mem pool.allocator size) ∧
      (unit ≠ 0 → ∃ pre post, freeSlots mem pool.allocator = pre ++ unit :: post ∧
        size ≤ slotSize mem unit ∧ ∀ obj ∈ pre, slotSize mem obj < size) := by
  have hslots := freeSlots_eq hinv.heap
  rcases poolMalloc_cases hinv size with
    ⟨hcall, hsmall⟩ | ⟨pre, block, post, before, after, rfl, rfl, hfree, hsize, hfit, hpre, hcall⟩
  · refine ⟨0, mem, hcall, ?_, fun h => absurd rfl h⟩
    rw [leftover_of_none (hslots.symm ▸ hsmall)]
    exact .fewer (List.Sublist.refl _) fun _ _ => rfl
  · have hheader : slotSize mem block.link = block.size :=
      header_of_free hinv.heap (by simp) hfree
    have hwhere : block.link ≠ 0 → ∃ pre post,
        freeSlots mem pool.allocator = pre ++ block.link :: post ∧
          size ≤ slotSize mem block.link ∧ ∀ obj ∈ pre, slotSize mem obj < size :=
      fun _ => ⟨pre, post, hslots, hheader ▸ hfit, hpre⟩
    have hsub : (pre ++ post).Sublist (pre ++ block.link :: post) := by simp
    have hkept : ∀ {mem' : Mem} {blocks' : List Block} {nodes' : List Nat},
        Heap mem' pool.arena blocks' nodes' → (∀ owner ∈ before ++ after, owner ∈ blocks') →
          ∀ obj ∈ pre ++ post, slotSize mem' obj = slotSize mem obj := by
      intro mem' blocks' nodes' hheap' hstay obj hobj
      obtain ⟨owner, howner, hownerFree, rfl⟩ := exists_other hinv.heap hobj
      refine header_kept hinv.heap hheap' ?_ (hstay owner howner) hownerFree
      simp only [List.mem_append, List.mem_cons] at howner ⊢
      tauto
    rw [leftover_of_split hslots hsize hpre (hheader ▸ hfit), hheader, sizeofFreePool]
    by_cases hsplit : block.size > align8Bytes size + 12
    · obtain ⟨obj, hfind, hinv', -⟩ := served_cut hinv hfree hsize hfit hsplit
      rw [if_pos hsplit, hfind, Option.map_some] at hcall
      rw [if_pos hsplit]
      refine ⟨block.link, _, hcall, .more _ _ (hslots ▸ hsub) ⟨_, freeSlots_eq hinv'.heap, ?_, ?_⟩,
        hwhere⟩
      · have hrest : remainder block size ∈
            before ++ frontPart block size :: remainder block size :: after := by simp
        exact header_of_free hinv'.heap hrest rfl
      · refine hkept hinv'.heap fun owner howner => ?_
        simp only [List.mem_append, List.mem_cons] at howner ⊢
        tauto
    · rw [if_neg hsplit] at hcall
      obtain ⟨hheap, -, -⟩ := taken_spec hinv hfree
      rw [if_neg hsplit]
      have hslots' := freeSlots_eq hheap
      refine ⟨block.link, _, hcall, .fewer ?_ ?_, hwhere⟩
      · rw [hslots', hslots]
        exact hsub
      · rw [hslots']
        refine hkept hheap fun owner howner => ?_
        simp only [List.mem_append, List.mem_cons] at howner ⊢
        tauto

/-- What is taken from an ordered list is a smallest. -/
theorem takesSmallest_of_ordered {state : PoolState} (hinv : PoolInv state.mem pool blocks nodes)
    (hordered : SizeOrdered pool.allocator state.mem) (call : PoolCall) :
    TakesSmallest pool.allocator state call := by
  rintro size - result hresult hunit
  obtain ⟨unit, mem', hcall, -, hwhere⟩ := malloc_listed hinv size
  obtain rfl : (unit, mem') = result := Option.some.inj (hcall.symm.trans hresult)
  obtain ⟨pre, post, hslots, hfit, hpre⟩ := hwhere hunit
  rw [SizeOrdered, hslots] at hordered
  refine ⟨by simp [hslots], hfit, ?_⟩
  rw [hslots]
  exact hordered.first_le hpre

/-- `pool_strdup` writes where no node of the list is. -/
theorem strdup_listed (hinv : PoolInv mem pool blocks nodes) (s : List UInt8) :
    ∃ unit mem', poolStrdup mem pool.allocator s = some (unit, mem') ∧
      Listed pool.allocator mem mem' (leftover mem pool.allocator (s.length + 1)) := by
  obtain ⟨unit, mem', hcall, hlisted, -⟩ := malloc_listed hinv (s.length + 1)
  obtain ⟨other, mem'', blocks', hcall', hserved, -⟩ := poolMalloc_spec hinv (s.length + 1)
  obtain ⟨rfl, rfl⟩ := Prod.mk.inj (Option.some.inj (hcall.symm.trans hcall'))
  obtain ⟨nodes', hinv'⟩ := hserved.inv
  rcases hserved.answer with ⟨rfl, -⟩ | ⟨block, rfl, hgranted⟩
  · exact ⟨0, mem', by simp [poolStrdup, hcall], hlisted⟩
  · have hlink : block.link ≠ 0 := by simp [Block.link]
    have hcopied := hinv'.of_copy (hgranted.used_perm.mem_iff.mpr List.mem_cons_self)
      (show (s ++ [0]).length ≤ block.size by simpa using hgranted.room)
    exact ⟨block.link, _, by simp [poolStrdup, hcall, hlink],
      hlisted.of_payload hinv'.heap hcopied.heap⟩

/-- Every call on a pool does with the free list what `newcomer` says. -/
theorem call_listed {state : PoolState} {call : PoolCall} (hreach : PoolReach pool state)
    (hpermitted : Permitted state call) :
    ∃ next, poolStep pool.allocator state call = some next ∧
      Listed pool.allocator state.mem next.mem (newcomer pool.allocator state.mem call) := by
  obtain ⟨mem, owned⟩ := state
  obtain ⟨blocks, nodes, hinv, haccounts⟩ := hreach
  cases call with
  | malloc size =>
      obtain ⟨unit, mem', hcall, hlisted, -⟩ := malloc_listed hinv size
      exact ⟨⟨mem', granted owned unit size⟩, by simp [poolStep, hcall], hlisted⟩
  | strdup s =>
      obtain ⟨unit, mem', hcall, hlisted⟩ := strdup_listed hinv s
      exact ⟨⟨mem', granted owned unit (s.length + 1)⟩, by simp [poolStep, hcall], hlisted⟩
  | free unit =>
      obtain ⟨before, block, after, refs, rfl, -, hisUsed, rfl⟩ :=
        exists_block_of_held haccounts (hpermitted.2.1 unit rfl)
      have hblock : block ∈ before ++ block :: after := by simp
      have hstatus := single_of_used hinv.plain (mem_usedBlocks.mpr ⟨hblock, hisUsed⟩)
      have hheader : slotSize mem block.link = block.size := by
        rw [slotSize, link_sub, hinv.heap.headers block hblock, tag_of_used hstatus]
      obtain ⟨mem', -, -, hcall, -, -, -, hrelisted⟩ := poolFree_spec hinv hstatus
      refine ⟨⟨mem', owned.eraseP fun grant => grant.unit = block.link⟩,
        by simp [poolStep, hcall], ?_⟩
      have hstop : block.link + block.size = block.stop := by simp [Block.link, Block.stop]
      simp only [newcomer, hheader, link_sub, hstop, freeSlots_eq hinv.heap]
      refine .more _ _ ?_ hrelisted
      rw [freeSlots_eq hinv.heap]
      exact List.filter_sublist
  | write addr byte =>
      have hwritten := hinv.of_write haccounts byte (hpermitted.2.2 addr rfl)
      have hsame : Listed pool.allocator mem mem none :=
        .fewer (List.Sublist.refl _) fun _ _ => rfl
      exact ⟨⟨store8 mem addr byte, owned⟩, rfl, hsame.of_payload hinv.heap hwritten.heap⟩

/-- A call on an ordered pool. -/
theorem bestFit_iff_matched {state : PoolState} {call : PoolCall} (hreach : PoolReach pool state)
    (hordered : SizeOrdered pool.allocator state.mem) (hpermitted : Permitted state call) :
    BestFit pool.allocator state call ↔ Matched pool.allocator state call := by
  obtain ⟨next, hstep, hlisted⟩ := call_listed hreach hpermitted
  obtain ⟨blocks, nodes, hinv, -⟩ := hreach
  rw [BestFit, Matched, ← hlisted.ordered_iff hordered, hstep]
  constructor
  · rintro ⟨-, hall⟩
    exact hall next rfl
  · intro hnext
    refine ⟨takesSmallest_of_ordered hinv hordered call, fun other hother => ?_⟩
    obtain rfl := Option.some.inj hother
    exact hnext

/-- A small chunk has one node, which is on the list or handed out. -/
theorem SmallInv.slots {chunk : SmallChunk} {state : PoolState} (hinv : SmallInv chunk state) :
    (state.owned = [] ∧ freeSlots state.mem chunk.allocator = [chunk.link]) ∨
      (∃ grant, state.owned = [grant]) ∧ freeSlots state.mem chunk.allocator = [] := by
  cases hinv with
  | free mem hwords hring =>
      exact Or.inl ⟨rfl,
        listObjects_eq hring (List.nodup_cons.mp chunk.placed.nodup).1 chunk.length_lt⟩
  | held mem hwords hring size hfit =>
      exact Or.inr ⟨⟨_, rfl⟩, listObjects_eq hring (by simp) (by decide)⟩

theorem SmallInv.sizeOrdered {chunk : SmallChunk} {state : PoolState}
    (hinv : SmallInv chunk state) :
    SizeOrdered chunk.allocator state.mem := by
  rw [SizeOrdered]
  rcases hinv.slots with ⟨-, hslots⟩ | ⟨-, hslots⟩
  · rw [hslots]
    exact List.pairwise_singleton _ _
  · rw [hslots]
    exact List.Pairwise.nil

/-- Nothing is ever linked beside another node. -/
theorem SmallInv.matched {chunk : SmallChunk} {state : PoolState} (hinv : SmallInv chunk state)
    {call : PoolCall} (hpermitted : Permitted state call) : Matched chunk.allocator state call := by
  have hleftover : ∀ size, ∀ entry ∈ leftover state.mem chunk.allocator size, entry.2 = [] := by
    intro size entry hentry
    rw [leftover] at hentry
    split at hentry
    · cases hentry
    · obtain ⟨obj, hobj, hcut⟩ := Option.bind_eq_some_iff.mp hentry
      have hmem := List.mem_of_find?_eq_some hobj
      split at hcut
      · obtain rfl := Option.some.inj hcut
        rcases hinv.slots with ⟨-, hslots⟩ | ⟨-, hslots⟩
        · rw [hslots, List.mem_singleton] at hmem
          simp [hslots, hmem]
        · simp [hslots] at hmem
      · cases hcut
  intro entry hentry
  left
  cases call with
  | malloc size => exact hleftover size entry hentry
  | strdup s => exact hleftover (s.length + 1) entry hentry
  | free unit =>
      obtain rfl := Option.some.inj hentry
      obtain ⟨grant, hgrant, -⟩ := hpermitted.2.1 unit rfl
      rcases hinv.slots with ⟨howned, -⟩ | ⟨-, hslots⟩
      · simp [howned] at hgrant
      · simp [hslots, apartNodes]
  | write addr byte => cases hentry

theorem SmallInv.takesSmallest {chunk : SmallChunk} {state : PoolState}
    (hinv : SmallInv chunk state)
    (call : PoolCall) : TakesSmallest chunk.allocator state call := by
  rintro size - result hresult hunit
  obtain ⟨unit, mem', hcall, hnext, hlink⟩ := hinv.malloc size
  obtain rfl : (unit, mem') = result := Option.some.inj (hcall.symm.trans hresult)
  obtain ⟨rfl, hfit⟩ := hlink hunit
  rcases hinv.slots with ⟨howned, hslots⟩ | ⟨⟨grant, howned⟩, -⟩
  · refine ⟨by simp [hslots], ?_, by simp [hslots]⟩
    cases hinv with
    | free mem hwords hring => exact hfit.trans hwords.link_header.ge
    | held mem hwords hring size hfit => simp at howned
  · -- The node is handed out already.
    rw [granted, if_neg hunit, howned] at hnext
    cases hnext

theorem SmallInv.bestFit {chunk : SmallChunk} {state : PoolState} (hinv : SmallInv chunk state)
    {call : PoolCall} (hpermitted : Permitted state call) : BestFit chunk.allocator state call := by
  refine ⟨hinv.takesSmallest call, fun next hnext => ?_⟩
  obtain ⟨other, hother, hinv'⟩ := hinv.step hpermitted
  obtain rfl := Option.some.inj (hother.symm.trans hnext)
  exact hinv'.sizeOrdered

end

/-- On an aligned chunk with `reserved` zero, the free list of a run is ordered
after every call, and every request takes a smallest block, exactly when every
block that is linked finds the list empty or one of its own size on it. -/
theorem pool_best_fit_iff {mem : Mem} {allocator chunkMem chunkSize : Nat} (haligned : 8 ∣ chunkMem)
    (hreserved : load32 mem allocator = 0) (hfits : NodeFits allocator chunkMem chunkSize)
    (hspace : chunkMem + chunkSize ≤ wordModulus)
    (hstruct : allocator + sizeofPoolAlloc ≤ wordModulus)
    (hapart : Apart allocator sizeofPoolAlloc chunkMem chunkSize)
    (hmem : load32 mem (chunkMemAt allocator) = chunkMem)
    (hchunk : load32 mem (chunkSizeAt allocator) = chunkSize)
    (haccepted : (initPoolAllocator mem allocator).1 = 0) {calls : List PoolCall}
    (hcalls : Promised (poolStep allocator) Permitted (poolInit mem allocator) calls) :
    SizeOrdered allocator (poolInit mem allocator).mem ∧
      (Promised (poolStep allocator) (BestFit allocator) (poolInit mem allocator) calls ↔
        Promised (poolStep allocator) (Matched allocator) (poolInit mem allocator) calls) := by
  by_cases hroom : sizeofFreePool ≤ chunkSize
  · obtain ⟨pool, rfl, rfl, rfl, hcontrols⟩ := exists_pool_of_accepted haligned hroom hspace hstruct
      hapart hreserved hmem hchunk haccepted
    have hstart : SizeOrdered pool.allocator (poolInit mem pool.allocator).mem := by
      obtain ⟨mem', nodes, hinit, hinv⟩ := initPoolAllocator_spec hcontrols
      have hsingle := hinv.heap.nodes_perm
      rw [poolInit, hinit, SizeOrdered, freeSlots_eq hinv.heap, List.perm_singleton.mp hsingle]
      exact List.pairwise_singleton _ _
    refine ⟨hstart, Promised.congr_invariant
      (fun state => PoolReach pool state ∧ SizeOrdered pool.allocator state.mem)
      (fun state call hinv hpermitted => bestFit_iff_matched hinv.1 hinv.2 hpermitted) ?_
      ⟨poolInit_reach hcontrols, hstart⟩ hcalls⟩
    rintro state call next ⟨hreach, hordered⟩ hpermitted hmatched hstep
    obtain ⟨other, hother, hreach'⟩ := call_reach hreach hpermitted
    obtain rfl := Option.some.inj (hother.symm.trans hstep)
    exact ⟨hreach', ((bestFit_iff_matched hreach hordered hpermitted).mpr hmatched).2 _ hstep⟩
  · obtain ⟨chunk, rfl, rfl, rfl⟩ :=
      exists_small_of_accepted haligned hroom hfits hspace hstruct hmem
      hchunk haccepted
    have hstart := initPoolAllocator_small hreserved hmem hchunk
    refine ⟨hstart.sizeOrdered, Promised.congr_invariant (SmallInv chunk)
      (fun state call hinv hpermitted => iff_of_true (hinv.bestFit hpermitted)
        (hinv.matched hpermitted)) ?_ hstart hcalls⟩
    intro state call next hinv hpermitted _ hstep
    obtain ⟨other, hother, hinv'⟩ := hinv.step hpermitted
    obtain rfl := Option.some.inj (hother.symm.trans hstep)
    exact hinv'

/-- Four blocks of a pool of sixty bytes, of which those that are freed have the
same size. -/
def freedEqual : List PoolCall :=
  [.malloc 8, .malloc 8, .malloc 8, .malloc 20, .free 68, .free 92, .malloc 5, .free 68, .free 80]

theorem pool_best_fit_iff_freedEqual :
    SizeOrdered 1000 (poolInit (poolWords 0 64 60) 1000).mem ∧
      Promised (poolStep 1000) (BestFit 1000) (poolInit (poolWords 0 64 60) 1000) freedEqual := by
  have hcalls : Promised (poolStep 1000) Permitted (poolInit (poolWords 0 64 60) 1000)
    freedEqual := by
    decide +kernel
  have hrun := pool_best_fit_iff (show 8 ∣ 64 by decide)
    (show load32 (poolWords 0 64 60) 1000 = 0 by decide)
      (Or.inl (show 12 ≤ 60 by decide)) (by decide)
    (by decide) (Or.inr (by decide)) (by decide) (by decide) (by decide +kernel) hcalls
  exact ⟨hrun.1, hrun.2.mpr (by decide +kernel)⟩

/-- A block of eight bytes goes behind the large rest of the chunk, and the next
request for eight bytes cuts the large one. -/
theorem pool_not_best_fit :
    (initPoolAllocator samplePool 1000).1 = 0 ∧
      Promised (poolStep 1000) Permitted (poolInit samplePool 1000)
        [.malloc 8, .malloc 8, .free 68, .malloc 8] ∧
      (∃ state, runMachine (poolStep 1000) (poolInit samplePool 1000)
          [.malloc 8, .malloc 8, .free 68] = some state ∧
        ¬ SizeOrdered 1000 state.mem ∧ ¬ TakesSmallest 1000 state (.malloc 8)) := by
  refine ⟨by decide +kernel, by decide +kernel, ?_⟩
  have hsome : (runMachine (poolStep 1000) (poolInit samplePool 1000)
      [.malloc 8, .malloc 8, .free 68]).isSome = true := by decide +kernel
  obtain ⟨state, hstate⟩ := Option.isSome_iff_exists.mp hsome
  have hall : ∀ final ∈ runMachine (poolStep 1000) (poolInit samplePool 1000)
      [.malloc 8, .malloc 8, .free 68],
      ¬ SizeOrdered 1000 final.mem ∧ ¬ TakesSmallest 1000 final (.malloc 8) := by decide +kernel
  exact ⟨state, hstate, hall state hstate⟩

end McuProxy.Ckits.Pool
