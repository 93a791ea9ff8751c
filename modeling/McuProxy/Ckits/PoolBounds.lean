/-
# Where the blocks of a pool lie

`init_pool_allocator` takes chunks that a pool cannot be built on. A chunk that
does not start at a multiple of eight is used from the next such address on, with
its whole size; a chunk of less than twelve bytes has no room for a free node; and
`reserved`, which nobody initialises, is what a search that finds nothing takes
for the size of a block.

On an aligned chunk with `reserved` zero every block that is handed out lies inside
the chunk. A chunk of less than twelve bytes is one block that is never cut, and
its links reach beyond it; there the pool depends on the bytes behind the chunk
not being those of the `pool_alloc_t`.
-/

import McuProxy.Ckits.PoolRun
import McuProxy.Ckits.SlotAlloc

namespace McuProxy.Ckits.Pool

open McuProxy.Memory McuProxy.Math

/-- What a request hands out lies inside the chunk. -/
def BlockInside (allocator chunkMem chunkSize : Nat) (state : PoolState) (call : PoolCall) : Prop :=
  ∀ size ∈ call.request, ∀ result ∈ poolMalloc state.mem allocator size,
    result.1 ≠ 0 → chunkMem ≤ result.1 ∧ result.1 + size ≤ chunkMem + chunkSize

instance (allocator chunkMem chunkSize : Nat) (state : PoolState) (call : PoolCall) :
    Decidable (BlockInside allocator chunkMem chunkSize state call) :=
  inferInstanceAs (Decidable
    (∀ size ∈ call.request, ∀ result ∈ poolMalloc state.mem allocator size, _))

/-- In a pool whose blocks cover the chunk, what is handed out is one of them. -/
theorem PoolReach.blockInside {pool : PoolChunk} {state : PoolState} (hreach : PoolReach pool state)
    (call : PoolCall) : BlockInside pool.allocator pool.chunkMem pool.chunkSize state call := by
  obtain ⟨blocks, nodes, hinv, -⟩ := hreach
  rintro size - result hresult hunit
  obtain ⟨unit, mem', blocks', hcall, hserved, -⟩ := poolMalloc_spec hinv size
  obtain rfl : (unit, mem') = result := Option.some.inj (hcall.symm.trans hresult)
  obtain ⟨nodes', hinv'⟩ := hserved.inv
  rcases hserved.answer with ⟨hzero, -⟩ | ⟨block, rfl, hgranted⟩
  · exact absurd hzero hunit
  · have hmem := (mem_usedBlocks.mp (hgranted.used_perm.mem_iff.mpr List.mem_cons_self)).1
    have hbounds := block_bounds hinv'.heap.tiles hmem
    have hroom := hgranted.room
    simp only [Block.link, Block.stop] at *
    omega

/-- An aligned chunk of less than twelve bytes. The bytes behind it that its node
takes are in the address space and not those of the `pool_alloc_t`. -/
structure SmallChunk where
  allocator : Nat
  chunkMem : Nat
  chunkSize : Nat
  allocator_pos : 0 < allocator
  allocator_le : allocator + 20 ≤ wordModulus
  chunkMem_pos : 0 < chunkMem
  aligned : 8 ∣ chunkMem
  size_gt : 4 < chunkSize
  size_lt : chunkSize < 12
  node_le : chunkMem + 12 ≤ wordModulus
  top_lt : chunkMem + chunkSize < wordModulus
  outside : Apart allocator 20 chunkMem 12

namespace SmallChunk

/-- The list object of the only node. -/
def link (chunk : SmallChunk) : Nat := chunk.chunkMem + 4

theorem placed (chunk : SmallChunk) : Placed 0 [freeSlotsAt chunk.allocator, chunk.link] := by
  have hle := chunk.allocator_le
  have hnode := chunk.node_le
  have houtside := chunk.outside
  simp only [Apart] at houtside
  refine ⟨?_, ?_⟩
  · simp only [List.forall_mem_cons, freeSlotsAt, link]
    refine ⟨by omega, by omega, by simp⟩
  · refine List.pairwise_pair.mpr ?_
    simp only [Apart, freeSlotsAt, link]
    omega

theorem length_lt (chunk : SmallChunk) : [chunk.link].length < loopFuel := by
  rw [List.length_singleton]
  decide

end SmallChunk

/-- The words that no call on a small chunk changes. -/
structure SmallWords (mem : Mem) (chunk : SmallChunk) : Prop where
  reserved : load32 mem chunk.allocator = 0
  chunkMem : load32 mem (chunkMemAt chunk.allocator) = chunk.chunkMem
  chunkSize : load32 mem (chunkSizeAt chunk.allocator) = chunk.chunkSize
  header : load32 mem chunk.chunkMem = chunk.chunkSize - 4

/-- The pool of a small chunk: its node is free, or it is handed out. -/
inductive SmallInv (chunk : SmallChunk) : PoolState → Prop
  | free (mem : Mem) (hwords : SmallWords mem chunk)
      (hring : Ring mem 0 (freeSlotsAt chunk.allocator) [chunk.link]) : SmallInv chunk ⟨mem, []⟩
  | held (mem : Mem) (hwords : SmallWords mem chunk)
      (hring : Ring mem 0 (freeSlotsAt chunk.allocator) []) (size : Nat)
      (hfit : size ≤ chunk.chunkSize - 4) : SmallInv chunk ⟨mem, [⟨chunk.link, size⟩]⟩

section

variable {mem mem' : Mem} {chunk : SmallChunk} {size : Nat}

/-- The words stay when only links and payload change. -/
theorem SmallWords.of_same (hwords : SmallWords mem chunk)
    (hsame : ∀ addr, addr < freeSlotsAt chunk.allocator ∨ freeSlotsAt chunk.allocator + 8 ≤ addr →
      addr < chunk.link ∨ chunk.link + 8 ≤ addr → mem' addr = mem addr) :
    SmallWords mem' chunk := by
  have houtside := chunk.outside
  simp only [Apart] at houtside
  simp only [freeSlotsAt, SmallChunk.link] at hsame
  have hword : ∀ at', at' = chunk.allocator ∨ at' = chunk.allocator + 12 ∨
      at' = chunk.allocator + 16 ∨ at' = chunk.chunkMem → load32 mem' at' = load32 mem at' := by
    intro at' hat
    apply load32_congr
    intro addr hlow hhigh
    exact hsame addr (by omega) (by omega)
  exact ⟨(hword _ (by omega)).trans hwords.reserved,
    (hword _ (by simp [chunkMemAt])).trans hwords.chunkMem,
    (hword _ (by simp [chunkSizeAt])).trans hwords.chunkSize,
    (hword _ (by omega)).trans hwords.header⟩

theorem SmallWords.of_untouched (hwords : SmallWords mem chunk)
    (huntouched : Untouched mem mem' [freeSlotsAt chunk.allocator, chunk.link]) :
    SmallWords mem' chunk := by
  refine hwords.of_same fun addr hhead hlink => huntouched addr ?_
  simpa using ⟨hhead, hlink⟩

theorem SmallWords.not_bad (hwords : SmallWords mem chunk) :
    badAllocator mem chunk.allocator = false := by
  have hpos := chunk.allocator_pos
  have hmem := chunk.chunkMem_pos
  have hsize := chunk.size_gt
  simp only [badAllocator, hwords.chunkMem, hwords.chunkSize, Bool.or_eq_false_iff,
    decide_eq_false_iff_not]
  omega

theorem SmallWords.link_header (hwords : SmallWords mem chunk) :
    load32 mem (chunk.link - 4) = chunk.chunkSize - 4 := hwords.header

/-- A request that the node cannot serve. The search ends at the head, whose `size`
is `reserved`. -/
theorem poolMalloc_small_none (hwords : SmallWords mem chunk)
    (hfind : size ≠ 0 → findSlot mem chunk.allocator size = some (freeSlotsAt chunk.allocator)) :
    poolMalloc mem chunk.allocator size = some (0, mem) := by
  by_cases hzero : size = 0
  · simp [poolMalloc, hzero]
  · have hhead : freeSlotsAt chunk.allocator - 4 = chunk.allocator := by simp [freeSlotsAt]
    simp only [poolMalloc, hwords.not_bad, Bool.false_or, decide_eq_true_eq]
    rw [if_neg hzero, hfind hzero, Option.bind_some, hhead, hwords.reserved, if_neg (by omega)]

/-- A request that the node serves: it is taken off the list as a whole. -/
theorem poolMalloc_small_some (hwords : SmallWords mem chunk)
    (hring : Ring mem 0 (freeSlotsAt chunk.allocator) [chunk.link]) (hsize : size ≠ 0)
    (hfit : size ≤ chunk.chunkSize - 4) :
    ∃ mem', poolMalloc mem chunk.allocator size = some (chunk.link, mem') ∧
      SmallWords mem' chunk ∧ Ring mem' 0 (freeSlotsAt chunk.allocator) [] := by
  have hsmall := chunk.size_lt
  have hnode := chunk.node_le
  have hplaced := chunk.placed
  have hcut : Ring mem 0 (freeSlotsAt chunk.allocator) ([] ++ chunk.link :: []) := hring
  obtain ⟨hring', huntouched⟩ := ring_del hcut hplaced
  have hwords' := hwords.of_untouched huntouched
  have hfind : findSlot mem chunk.allocator size = some chunk.link := by
    rw [findSlot_eq hring (List.nodup_cons.mp hplaced.nodup).1 chunk.length_lt]
    simp [hwords.link_header, hfit]
  have hunit : addrPlus (chunk.link - 4) 4 = chunk.link := by
    rw [addrPlus, Nat.mod_eq_of_lt] <;> simp only [SmallChunk.link] <;> omega
  have halign := align8Bytes_spec (show size + 7 < wordModulus by simp only [wordModulus]; omega)
  have hwhole : ¬ chunk.chunkSize - 4 > (align8Bytes size + sizeofFreePool) % wordModulus := by
    rw [sizeofFreePool, Nat.mod_eq_of_lt (by simp only [wordModulus]; omega)]
    omega
  refine ⟨listDel mem 0 chunk.link, ?_, hwords', hring'⟩
  simp only [poolMalloc, hwords.not_bad, Bool.false_or, decide_eq_true_eq]
  rw [if_neg hsize, hfind, Option.bind_some, hwords.link_header, if_pos hfit]
  simp only [hunit, hwords'.link_header]
  rw [if_neg hwhole]

/-- `pool_malloc` on a small chunk. -/
theorem SmallInv.malloc {state : PoolState} (hinv : SmallInv chunk state) (size : Nat) :
    ∃ unit mem', poolMalloc state.mem chunk.allocator size = some (unit, mem') ∧
      SmallInv chunk ⟨mem', granted state.owned unit size⟩ ∧
      (unit ≠ 0 → unit = chunk.link ∧ size ≤ chunk.chunkSize - 4) := by
  cases hinv with
  | free mem hwords hring =>
      by_cases hserved : size ≠ 0 ∧ size ≤ chunk.chunkSize - 4
      · obtain ⟨mem', hcall, hwords', hring'⟩ :=
          poolMalloc_small_some hwords hring hserved.1 hserved.2
        refine ⟨chunk.link, mem', hcall, ?_, fun _ => ⟨rfl, hserved.2⟩⟩
        rw [granted, if_neg (by simp [SmallChunk.link])]
        exact .held mem' hwords' hring' size hserved.2
      · refine ⟨0, mem, poolMalloc_small_none hwords ?_, .free mem hwords hring,
          fun h => absurd rfl h⟩
        intro hzero
        rw [findSlot_eq hring (List.nodup_cons.mp chunk.placed.nodup).1 chunk.length_lt]
        have hlarge : ¬ size ≤ chunk.chunkSize - 4 := fun hfit => hserved ⟨hzero, hfit⟩
        simp [hwords.link_header, hlarge]
  | held mem hwords hring held hfit =>
      refine ⟨0, mem, poolMalloc_small_none hwords fun _ => ?_, .held mem hwords hring held hfit,
        fun h => absurd rfl h⟩
      rw [findSlot_eq hring (by simp) (by decide)]
      rfl

/-- `pool_free` of the block of a small chunk puts its node back. -/
theorem poolFree_small (hwords : SmallWords mem chunk)
    (hring : Ring mem 0 (freeSlotsAt chunk.allocator) []) :
    ∃ mem', poolFree mem chunk.allocator chunk.link = some mem' ∧
      SmallInv chunk ⟨mem', []⟩ := by
  have hsize := chunk.size_gt
  have htop := chunk.top_lt
  have hend : addrPlus chunk.chunkMem chunk.chunkSize = chunk.chunkMem + chunk.chunkSize := by
    rw [addrPlus, Nat.mod_eq_of_lt htop]
  have hsub : chunk.link - 4 = chunk.chunkMem := by simp [SmallChunk.link]
  have hplaced : Placed 0 [chunk.link, freeSlotsAt chunk.allocator] :=
    chunk.placed.perm (List.Perm.swap _ _ _)
  have hcombine : combine chunk.allocator loopFuel mem chunk.chunkMem =
      some (mem, chunk.chunkMem) := by
    have hloop : listForEach CombineState.mem 0 (freeSlotsAt chunk.allocator) combineBody
        ⟨mem, chunk.chunkMem, false⟩ =
          some (freeSlotsAt chunk.allocator, ⟨mem, chunk.chunkMem, false⟩) :=
      listForEach_eq_walk (fun state : CombineState => state.mem = mem)
        (fun state hstate => hstate ▸ hring) (by simp) (by simp) rfl (by decide)
    rw [loopFuel, wordModulus, combine, hloop]
    rfl
  have hfind : findSlot mem chunk.allocator (chunk.chunkSize - 4) =
      some (freeSlotsAt chunk.allocator) := by
    rw [findSlot_eq hring (by simp) (by decide)]
    rfl
  have hcut : Ring mem 0 (freeSlotsAt chunk.allocator) ([] ++ []) := hring
  obtain ⟨hlinked, huntouched⟩ := ring_insert hcut hplaced
  rw [← listAdd_eq hcut] at hlinked huntouched
  refine ⟨listAdd mem 0 chunk.link (freeSlotsAt chunk.allocator), ?_, .free _ ?_ hlinked⟩
  · have hlink : chunk.link ≠ 0 := by simp [SmallChunk.link]
    have hinside : ¬ (chunk.link ≥ chunk.chunkMem + chunk.chunkSize ∨
      chunk.link < chunk.chunkMem) := by
      simp only [SmallChunk.link]
      omega
    simp only [poolFree, hwords.not_bad, hwords.chunkMem, hwords.chunkSize, hend, hsub,
      Bool.false_or, decide_eq_true_eq, hwords.header]
    rw [if_neg hlink, if_neg hinside, if_neg (by omega), hcombine, Option.bind_some]
    simp only [hwords.header, hfind, Option.map_some]
    rfl
  · refine hwords.of_same fun addr hhead hlink => huntouched addr ?_
    simpa using ⟨hlink, hhead⟩

/-- Bytes written into the block of a small chunk. -/
theorem SmallInv.of_payload {owned : List Grant} (hinv : SmallInv chunk ⟨mem, owned⟩)
    (hheld : owned ≠ [])
    (hsame : ∀ addr, addr < chunk.link ∨ chunk.chunkMem + chunk.chunkSize ≤ addr →
      mem' addr = mem addr) : SmallInv chunk ⟨mem', owned⟩ := by
  have hsmall := chunk.size_lt
  have houtside := chunk.outside
  simp only [Apart] at houtside
  cases hinv with
  | free _ hwords hring => exact absurd rfl hheld
  | held _ hwords hring held hfit =>
      refine .held mem' (hwords.of_same fun addr _ hlink => hsame addr ?_) ?_ held hfit
      · simp only [SmallChunk.link] at hlink ⊢
        omega
      · refine ring_congr ?_ hring
        intro obj hobj addr hlow hhigh
        obtain rfl := List.mem_singleton.mp hobj
        apply hsame
        simp only [freeSlotsAt, SmallChunk.link] at *
        omega

/-- Every call on a small chunk. -/
theorem SmallInv.step {state : PoolState} (hinv : SmallInv chunk state) {call : PoolCall}
    (hpermitted : Permitted state call) :
    ∃ next, poolStep chunk.allocator state call = some next ∧ SmallInv chunk next := by
  have hfour := chunk.size_gt
  cases call with
  | malloc size =>
      obtain ⟨unit, mem', hcall, hnext, -⟩ := hinv.malloc size
      exact ⟨_, by simp only [poolStep, hcall, Option.map_some], hnext⟩
  | strdup s =>
      obtain ⟨unit, mem', hcall, hnext, hunit⟩ := hinv.malloc (s.length + 1)
      by_cases hzero : unit = 0
      · exact ⟨⟨mem', granted state.owned unit (s.length + 1)⟩,
          by simp [poolStep, poolStrdup, hcall, hzero], hnext⟩
      · obtain ⟨rfl, hfit⟩ := hunit hzero
        refine ⟨⟨writeBytes mem' chunk.link (s ++ [0]),
            granted state.owned chunk.link (s.length + 1)⟩,
          by simp [poolStep, poolStrdup, hcall, hzero], hnext.of_payload ?_ ?_⟩
        · rw [granted, if_neg hzero]
          exact List.cons_ne_nil _ _
        · intro addr haddr
          apply writeBytes_apply
          simp only [SmallChunk.link, List.length_append, List.length_singleton] at *
          omega
  | free unit =>
      obtain ⟨grant, hgrant, rfl⟩ := hpermitted.2.1 unit rfl
      cases hinv with
      | free mem hwords hring => simp at hgrant
      | held mem hwords hring held hfit =>
          obtain rfl := List.mem_singleton.mp hgrant
          obtain ⟨mem', hcall, hnext⟩ := poolFree_small hwords hring
          refine ⟨⟨mem', []⟩, ?_, hnext⟩
          simp [poolStep, hcall]
  | write addr byte =>
      obtain ⟨grant, hgrant, hlow, hhigh⟩ := hpermitted.2.2 addr rfl
      refine ⟨{ state with mem := store8 state.mem addr byte }, rfl, ?_⟩
      cases hinv with
      | free mem hwords hring => simp at hgrant
      | held mem hwords hring held hfit =>
          obtain rfl := List.mem_singleton.mp hgrant
          refine SmallInv.of_payload (.held mem hwords hring held hfit) (List.cons_ne_nil _ _) ?_
          intro other hother
          have hne : other ≠ addr := by
            simp only [SmallChunk.link] at *
            omega
          simp only [store8, if_neg hne]

/-- `init_pool_allocator` of a small chunk. -/
theorem initPoolAllocator_small (hreserved : load32 mem chunk.allocator = 0)
    (hmem : load32 mem (chunkMemAt chunk.allocator) = chunk.chunkMem)
    (hchunk : load32 mem (chunkSizeAt chunk.allocator) = chunk.chunkSize) :
    SmallInv chunk (poolInit mem chunk.allocator) := by
  have hpos := chunk.allocator_pos
  have hmemPos := chunk.chunkMem_pos
  have hsize := chunk.size_gt
  have htop := chunk.top_lt
  have hnode := chunk.node_le
  have hle := chunk.allocator_le
  have haligned := chunk.aligned
  have houtside := chunk.outside
  simp only [Apart] at houtside
  let start := initListHead mem (freeSlotsAt chunk.allocator)
  let sized := store32 start chunk.chunkMem (chunk.chunkSize - 4)
  have hother : ∀ addr,
      addr < freeSlotsAt chunk.allocator ∨ freeSlotsAt chunk.allocator + 8 ≤ addr →
      addr < chunk.chunkMem ∨ chunk.chunkMem + 4 ≤ addr → sized addr = mem addr := by
    intro addr hhead hheader
    simp only [sized, start, initListHead]
    rw [store32_apply hheader, store32_apply (by omega), store32_apply (by omega)]
  have hword : ∀ n, n = 0 ∨ n = 12 ∨ n = 16 →
      load32 sized (chunk.allocator + n) = load32 mem (chunk.allocator + n) := by
    intro n hn
    apply load32_congr
    intro addr hlow hhigh
    exact hother addr (by rw [freeSlotsAt]; omega) (by omega)
  have hwords : SmallWords sized chunk := by
    refine ⟨(hword 0 (by omega)).trans hreserved, (hword 12 (by omega)).trans hmem,
      (hword 16 (by omega)).trans hchunk, ?_⟩
    rw [load32_store32_same]
    exact Nat.mod_eq_of_lt (by omega)
  have hempty : Ring sized 0 (freeSlotsAt chunk.allocator) ([] ++ []) := by
    refine ring_congr ?_
      (Slot.ring_initListHead mem (show freeSlotsAt chunk.allocator < wordModulus by
      rw [freeSlotsAt]
      omega))
    intro obj hobj
    obtain rfl := List.mem_singleton.mp hobj
    apply store32_sameOn
    simp only [Apart, freeSlotsAt]
    omega
  have hplaced : Placed 0 (chunk.link :: freeSlotsAt chunk.allocator :: ([] ++ [])) :=
    chunk.placed.perm (List.Perm.swap _ _ _)
  obtain ⟨hring, huntouched⟩ := ring_insert hempty hplaced
  rw [← listAddTail_eq hempty] at hring huntouched
  have hcall := initPoolAllocator_writes hpos hmemPos haligned hsize htop hmem hchunk
  rw [poolInit, hcall]
  refine .free _ (hwords.of_same fun addr hhead hlink => huntouched addr ?_) hring
  simpa using ⟨hlink, hhead⟩

end

/-- Every node that is linked keeps clear of the `pool_alloc_t`: the chunk has room
for a node, or the bytes behind the chunk are free for one. -/
def NodeFits (allocator chunkMem chunkSize : Nat) : Prop :=
  sizeofFreePool ≤ chunkSize ∨
    Apart allocator sizeofPoolAlloc chunkMem sizeofFreePool ∧
      chunkMem + sizeofFreePool ≤ wordModulus

/-- A small chunk that `init_pool_allocator` does not refuse. -/
theorem exists_small_of_accepted {mem : Mem} {allocator chunkMem chunkSize : Nat}
    (haligned : 8 ∣ chunkMem) (hsmall : ¬ sizeofFreePool ≤ chunkSize)
    (hfits : NodeFits allocator chunkMem chunkSize) (hspace : chunkMem + chunkSize ≤ wordModulus)
    (hstruct : allocator + sizeofPoolAlloc ≤ wordModulus)
    (hmem : load32 mem (chunkMemAt allocator) = chunkMem)
    (hchunk : load32 mem (chunkSizeAt allocator) = chunkSize)
    (haccepted : (initPoolAllocator mem allocator).1 = 0) :
    ∃ chunk : SmallChunk, chunk.allocator = allocator ∧ chunk.chunkMem = chunkMem ∧
      chunk.chunkSize = chunkSize := by
  obtain ⟨hapart, hnode⟩ := hfits.resolve_left hsmall
  have htested : ¬ (allocator = 0 ∨ chunkMem = 0 ∨ chunkSize ≤ 4) := by
    intro hrefused
    have hbad : allocator = 0 ∨ chunkMem = 0 ∨ chunkSize ≤ efftsizeToPoolsize 0 := hrefused
    simp only [initPoolAllocator, hmem, hchunk, if_pos hbad] at haccepted
    cases haccepted
  have hend : chunkMem + chunkSize ≠ wordModulus := by
    intro htop
    have hzero : addrPlus chunkMem chunkSize = 0 := by rw [addrPlus, htop, Nat.mod_self]
    simp only [initPoolAllocator, hmem, hchunk, hzero, ge_iff_le, Nat.zero_le, if_true,
      ite_self] at haccepted
    cases haccepted
  exact ⟨⟨allocator, chunkMem, chunkSize, by omega, hstruct, by omega, haligned, by omega,
    not_le.mp hsmall, hnode, by omega, hapart⟩, rfl, rfl, rfl⟩

/-- On an aligned chunk with `reserved` zero whose node keeps clear of the
`pool_alloc_t`, every call comes to its end and every block that is handed out lies
inside the chunk. -/
theorem pool_blocks_inside {mem : Mem} {allocator chunkMem chunkSize : Nat}
    (haligned : 8 ∣ chunkMem)
    (hreserved : load32 mem allocator = 0) (hfits : NodeFits allocator chunkMem chunkSize)
    (hspace : chunkMem + chunkSize ≤ wordModulus)
    (hstruct : allocator + sizeofPoolAlloc ≤ wordModulus)
    (hapart : Apart allocator sizeofPoolAlloc chunkMem chunkSize)
    (hmem : load32 mem (chunkMemAt allocator) = chunkMem)
    (hchunk : load32 mem (chunkSizeAt allocator) = chunkSize)
    (haccepted : (initPoolAllocator mem allocator).1 = 0) {calls : List PoolCall}
    (hcalls : Promised (poolStep allocator) Permitted (poolInit mem allocator) calls) :
    (∃ final, runMachine (poolStep allocator) (poolInit mem allocator) calls = some final) ∧
      Promised (poolStep allocator) (BlockInside allocator chunkMem chunkSize)
        (poolInit mem allocator) calls := by
  by_cases hroom : sizeofFreePool ≤ chunkSize
  · obtain ⟨pool, rfl, rfl, rfl, hcontrols⟩ := exists_pool_of_accepted haligned hroom hspace hstruct
      hapart hreserved hmem hchunk haccepted
    have hstart := poolInit_reach hcontrols
    obtain ⟨final, hrun, -⟩ := runMachine_invariant (PoolReach pool)
      (fun _ _ hreach hpermitted => call_reach hreach hpermitted) hstart hcalls
    refine ⟨⟨final, hrun⟩, Promised.imp_invariant (PoolReach pool)
      (fun _ call hreach _ => hreach.blockInside call) ?_ hstart hcalls⟩
    intro state call next hreach hpermitted hstep
    obtain ⟨other, hother, hreach'⟩ := call_reach hreach hpermitted
    obtain rfl := Option.some.inj (hother.symm.trans hstep)
    exact hreach'
  · obtain ⟨chunk, rfl, rfl, rfl⟩ :=
      exists_small_of_accepted haligned hroom hfits hspace hstruct hmem
      hchunk haccepted
    have hstart := initPoolAllocator_small hreserved hmem hchunk
    obtain ⟨final, hrun, -⟩ := runMachine_invariant (SmallInv chunk)
      (fun _ _ hinv hpermitted => hinv.step hpermitted) hstart hcalls
    refine ⟨⟨final, hrun⟩, Promised.imp_invariant (SmallInv chunk) ?_ ?_ hstart hcalls⟩
    · rintro state call hinv - size - result hresult hunit
      obtain ⟨unit, mem', hcall, -, hlink⟩ := hinv.malloc size
      obtain rfl : (unit, mem') = result := Option.some.inj (hcall.symm.trans hresult)
      obtain ⟨rfl, hfit⟩ := hlink hunit
      have hfour := chunk.size_gt
      simp only [SmallChunk.link]
      omega
    · intro state call next hinv hpermitted hstep
      obtain ⟨other, hother, hinv'⟩ := hinv.step hpermitted
      obtain rfl := Option.some.inj (hother.symm.trans hstep)
      exact hinv'

/-- The words of a `pool_alloc_t` at 1000. -/
def poolWords (reserved chunkMem chunkSize : Nat) : Mem :=
  store32 (store32 (store32 (fun _ => 0) 1000 reserved) (chunkMemAt 1000) chunkMem)
    (chunkSizeAt 1000) chunkSize

/-- A pool of eleven bytes and one of a hundred. -/
theorem pool_blocks_inside_small :
    ((∃ final, runMachine (poolStep 1000) (poolInit (poolWords 0 64 11) 1000)
        [.malloc 8, .malloc 7, .malloc 1, .write 74 1, .free 68, .strdup [104]] = some final) ∧
      Promised (poolStep 1000) (BlockInside 1000 64 11) (poolInit (poolWords 0 64 11) 1000)
        [.malloc 8, .malloc 7, .malloc 1, .write 74 1, .free 68, .strdup [104]]) ∧
    ((∃ final, runMachine (poolStep 1000) (poolInit (poolWords 0 64 100) 1000)
        [.malloc 8, .malloc 90, .free 68, .malloc 96, .malloc 1] = some final) ∧
      Promised (poolStep 1000) (BlockInside 1000 64 100) (poolInit (poolWords 0 64 100) 1000)
        [.malloc 8, .malloc 90, .free 68, .malloc 96, .malloc 1]) :=
  ⟨pool_blocks_inside (by decide) (by decide) (Or.inr ⟨Or.inr (by decide), by decide⟩) (by decide)
      (by decide) (Or.inr (by decide)) (by decide) (by decide) (by decide +kernel)
        (by decide +kernel),
    pool_blocks_inside (by decide) (by decide) (Or.inl (by decide)) (by decide) (by decide)
      (Or.inr (by decide)) (by decide) (by decide) (by decide +kernel) (by decide +kernel)⟩

/-- A chunk of sixteen bytes at 65 hands out twelve bytes from 76 on, beyond its
end; and a leftover `reserved` makes an exhausted pool hand out its own
`pool_alloc_t`. -/
theorem pool_block_outside :
    ((initPoolAllocator (poolWords 0 65 16) 1000).1 = 0 ∧
      Promised (poolStep 1000) Permitted (poolInit (poolWords 0 65 16) 1000) [.malloc 12] ∧
      ¬ Promised (poolStep 1000) (BlockInside 1000 65 16) (poolInit (poolWords 0 65 16) 1000)
        [.malloc 12]) ∧
    ((initPoolAllocator (poolWords 7 64 16) 1000).1 = 0 ∧
      Promised (poolStep 1000) Permitted (poolInit (poolWords 7 64 16) 1000)
        [.malloc 12, .malloc 1] ∧
      ¬ Promised (poolStep 1000) (BlockInside 1000 64 16) (poolInit (poolWords 7 64 16) 1000)
        [.malloc 12, .malloc 1]) := by
  decide +kernel

end McuProxy.Ckits.Pool
