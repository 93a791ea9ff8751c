/-
# Runs of the pool allocator

A run is any sequence of `pool_malloc`, `pool_strdup` and `pool_free` of pointers
that are held, and of bytes written inside the memory that was asked for. Each
call comes to its end, the loop that combines blocks included, and leaves the
chunk divided into blocks of which no two free ones are adjacent. When nothing is
held any more there is one block again.
-/

import McuProxy.Ckits.PoolOps
import McuProxy.Math.Machine

namespace McuProxy.Ckits.Pool

open McuProxy.Memory McuProxy.Math

/-- Memory, and the pointers that are held with the sizes that were asked for. -/
structure PoolState where
  mem : Mem
  owned : List Grant

/-- What callers do: the calls of the allocator, and writing a byte. -/
inductive PoolCall
  | malloc (size : Nat)
  | strdup (s : List UInt8)
  | free (unit : Nat)
  | write (addr : Nat) (byte : UInt8)
  deriving DecidableEq, Repr

namespace PoolCall

/-- The number of bytes that a call asks for. -/
def request : PoolCall → Option Nat
  | malloc size => some size
  | strdup s => some (s.length + 1)
  | _ => none

/-- The pointer that a call frees. -/
def target : PoolCall → Option Nat
  | free unit => some unit
  | _ => none

/-- The address that an owner writes to; `none` for the calls of the allocator. -/
def writes : PoolCall → Option Nat
  | write addr _ => some addr
  | _ => none

end PoolCall

/-- One call on the pool of a `pool_alloc_t`. -/
def poolStep (allocator : Nat) (state : PoolState) : PoolCall → Option PoolState
  | .malloc size =>
      (poolMalloc state.mem allocator size).map fun (unit, mem) =>
        ⟨mem, granted state.owned unit size⟩
  | .strdup s =>
      (poolStrdup state.mem allocator s).map fun (unit, mem) =>
        ⟨mem, granted state.owned unit (s.length + 1)⟩
  | .free unit =>
      (poolFree state.mem allocator unit).map fun mem =>
        ⟨mem, state.owned.eraseP fun grant => grant.unit = unit⟩
  | .write addr byte => some { state with mem := store8 state.mem addr byte }

/-- The state after `init_pool_allocator`. -/
def poolInit (mem : Mem) (allocator : Nat) : PoolState := ⟨(initPoolAllocator mem allocator).2, []⟩

/-- What callers keep to: sizes are words, only pointers that are held are freed,
and bytes are written inside the memory that was asked for. -/
def Permitted (state : PoolState) (call : PoolCall) : Prop :=
  (∀ size ∈ call.request, size < wordModulus) ∧
    (∀ unit ∈ call.target, ∃ grant ∈ state.owned, grant.unit = unit) ∧
    ∀ addr ∈ call.writes, ∃ grant ∈ state.owned,
      grant.unit ≤ addr ∧ addr < grant.unit + grant.size

instance (state : PoolState) (call : PoolCall) : Decidable (Permitted state call) :=
  inferInstanceAs (Decidable (_ ∧ _ ∧ _))

/-- What every state of a run satisfies: the pool is sound, and the pointers that
are held are those to its blocks. -/
def PoolReach (pool : PoolChunk) (state : PoolState) : Prop :=
  ∃ blocks nodes, PoolInv state.mem pool blocks nodes ∧ Accounts state.owned (usedBlocks blocks)

section

variable {mem mem' : Mem} {owned : List Grant} {pool : PoolChunk} {size unit : Nat}
  {blocks blocks' before after : List Block} {block : Block} {nodes : List Nat}

theorem malloc_reach (hinv : PoolInv mem pool blocks nodes)
    (haccounts : Accounts owned (usedBlocks blocks)) (size : Nat) :
    ∃ next, poolStep pool.allocator ⟨mem, owned⟩ (.malloc size) = some next ∧
      PoolReach pool next := by
  obtain ⟨unit, mem', blocks', hcall, hserved, _⟩ := poolMalloc_spec hinv size
  obtain ⟨nodes', hinv'⟩ := hserved.inv
  refine ⟨⟨mem', granted owned unit size⟩, by simp only [poolStep, hcall, Option.map_some], ?_⟩
  exact ⟨blocks', nodes', hinv', haccounts.answered hinv'.heap.tiles hserved.answer⟩

/-- Bytes copied into a block in use. -/
theorem PoolInv.of_copy (hinv : PoolInv mem pool blocks nodes) (hblock : block ∈ usedBlocks blocks)
    {bytes : List UInt8} (hroom : bytes.length ≤ block.size) :
    PoolInv (writeBytes mem block.link bytes) pool blocks nodes := by
  refine hinv.of_payload hblock fun addr haddr => ?_
  apply writeBytes_apply
  simp only [Block.link, Block.stop] at *
  omega

/-- `pool_strdup` writes only into the block that it was given. -/
theorem strdup_reach (hinv : PoolInv mem pool blocks nodes)
    (haccounts : Accounts owned (usedBlocks blocks)) (s : List UInt8) :
    ∃ next, poolStep pool.allocator ⟨mem, owned⟩ (.strdup s) = some next ∧ PoolReach pool next := by
  obtain ⟨unit, mem', blocks', hcall, hserved, _⟩ := poolMalloc_spec hinv (s.length + 1)
  obtain ⟨nodes', hinv'⟩ := hserved.inv
  have haccounts' := haccounts.answered hinv'.heap.tiles hserved.answer
  rcases hserved.answer with ⟨rfl, _⟩ | ⟨block, rfl, hgranted⟩
  · refine ⟨⟨mem', granted owned 0 (s.length + 1)⟩, ?_, blocks', nodes', hinv', haccounts'⟩
    simp [poolStep, poolStrdup, hcall]
  · have hlink : block.link ≠ 0 := by simp [Block.link]
    have hcopied := hinv'.of_copy (hgranted.used_perm.mem_iff.mpr List.mem_cons_self)
      (show (s ++ [0]).length ≤ block.size by simpa using hgranted.room)
    exact ⟨⟨writeBytes mem' block.link (s ++ [0]), granted owned block.link (s.length + 1)⟩,
      by simp [poolStep, poolStrdup, hcall, hlink], blocks', nodes', hcopied, haccounts'⟩

theorem free_reach (hinv : PoolInv mem pool blocks nodes)
    (haccounts : Accounts owned (usedBlocks blocks)) (hheld : ∃ grant ∈ owned, grant.unit = unit) :
    ∃ next, poolStep pool.allocator ⟨mem, owned⟩ (.free unit) = some next ∧
      PoolReach pool next := by
  obtain ⟨before, block, after, refs, rfl, hused, hisUsed, rfl⟩ :=
    exists_block_of_held haccounts hheld
  have hstatus : block.status = .used 0 := by
    rcases (hinv.plain block (by simp)).2 with hfree | hstatus
    · simp [isUsed_of_free hfree] at hisUsed
    · exact hstatus
  obtain ⟨mem', blocks', nodes', hcall, hinv', hsame, _, _⟩ := poolFree_spec hinv hstatus
  have hdistinct := usedBlocks_distinct hinv.heap.tiles
  rw [usedBlocks_split hisUsed] at haccounts hdistinct
  have hsplit : usedBlocks (before ++ after) = usedBlocks before ++ usedBlocks after := by
    simp [usedBlocks]
  refine ⟨⟨mem', owned.eraseP fun grant => grant.unit = block.link⟩, ?_, blocks', nodes', hinv', ?_⟩
  · simp [poolStep, hcall]
  · rw [hsame, hsplit]
    exact haccounts.retire hdistinct hstatus hheld

/-- A byte written inside the memory that was asked for. -/
theorem PoolInv.of_write (hinv : PoolInv mem pool blocks nodes)
    (haccounts : Accounts owned (usedBlocks blocks)) {addr : Nat} (byte : UInt8)
    (hinside : ∃ grant ∈ owned, grant.unit ≤ addr ∧ addr < grant.unit + grant.size) :
    PoolInv (store8 mem addr byte) pool blocks nodes := by
  obtain ⟨grant, hgrant, hlow, hhigh⟩ := hinside
  obtain ⟨block, hblock, hlink, hsize⟩ := haccounts.held grant hgrant
  refine hinv.of_payload hblock fun other hother => ?_
  have hne : other ≠ addr := by
    simp only [Block.link, Block.stop] at *
    omega
  simp only [store8, if_neg hne]

/-- Every call in a state of a run. -/
theorem call_reach {state : PoolState} {call : PoolCall} (hreach : PoolReach pool state)
    (hpermitted : Permitted state call) :
    ∃ next, poolStep pool.allocator state call = some next ∧ PoolReach pool next := by
  obtain ⟨mem, owned⟩ := state
  obtain ⟨blocks, nodes, hinv, haccounts⟩ := hreach
  obtain ⟨_, htarget, hwrites⟩ := hpermitted
  cases call with
  | malloc size => exact malloc_reach hinv haccounts size
  | strdup s => exact strdup_reach hinv haccounts s
  | free unit => exact free_reach hinv haccounts (htarget unit rfl)
  | write addr byte =>
      exact ⟨_, rfl, blocks, nodes, hinv.of_write haccounts byte (hwrites addr rfl), haccounts⟩

/-- A pool that is sound with the division of its chunk into `blocks`. -/
structure PoolSound (allocator chunkMem chunkSize : Nat) (state : PoolState) (blocks : List Block) :
    Prop where
  tiles : Tiles chunkMem blocks (chunkMem + chunkSize)
  headers : ∀ block ∈ blocks, load32 state.mem block.addr = block.size
  kinds : ∀ block ∈ blocks, block.isFree = true ∨ block.status = .used 0
  allocated : ∀ unit, (∃ grant ∈ state.owned, grant.unit = unit) ↔
    ∃ block ∈ usedBlocks blocks, block.link = unit
  listed : (freeSlots state.mem allocator).Perm (freeLinks blocks)
  separate : ∀ first ∈ blocks, ∀ second ∈ blocks, first.isFree = true → second.isFree = true →
    first.stop ≠ second.addr
  disjoint : state.owned.Pairwise fun first second =>
    Apart first.unit first.size second.unit second.size
  clear : ∀ grant ∈ state.owned, ∀ block ∈ blocks, Apart block.addr 4 grant.unit grant.size
  inside : ∀ grant ∈ state.owned, chunkMem ≤ grant.unit ∧
    grant.unit + grant.size ≤ chunkMem + chunkSize

theorem single_of_used (hplain : Plain blocks) (hblock : block ∈ usedBlocks blocks) :
    block.status = .used 0 := by
  obtain ⟨hmem, hused⟩ := mem_usedBlocks.mp hblock
  rcases (hplain block hmem).2 with hfree | hstatus
  · simp [isUsed_of_free hfree] at hused
  · exact hstatus

/-- The invariant in terms of memory and pointers. -/
theorem poolSound_of_reach (hinv : PoolInv mem pool blocks nodes)
    (haccounts : Accounts owned (usedBlocks blocks)) :
    PoolSound pool.allocator pool.chunkMem pool.chunkSize ⟨mem, owned⟩ blocks where
  tiles := hinv.heap.tiles
  headers := by
    intro block hblock
    have hheader := hinv.heap.headers block hblock
    rcases (hinv.plain block hblock).2 with hfree | hstatus
    · exact hheader.trans (tag_of_free hfree)
    · exact hheader.trans (tag_of_used hstatus)
  kinds := fun block hblock => (hinv.plain block hblock).2
  allocated := fun _ => haccounts.held_iff
  listed := by
    have hobjects : freeSlots mem pool.allocator = nodes :=
      listObjects_eq hinv.heap.ring hinv.heap.toShape.head_notMem hinv.heap.toShape.length_lt
    rw [hobjects]
    exact hinv.heap.nodes_perm
  separate := fun first hfirst second hsecond =>
    hinv.separate.stop_ne hinv.heap.tiles hfirst hsecond
  disjoint := by
    have hdistinct := haccounts.distinct fun block hblock => single_of_used hinv.plain hblock
    refine hdistinct.imp_of_mem ?_
    intro first second hfirst hsecond hne
    exact haccounts.disjoint hinv.heap.tiles hfirst hsecond hne
  clear := fun _ hgrant _ hblock => haccounts.clear hinv.heap.tiles hgrant hblock
  inside := by
    intro grant hgrant
    have hinside := haccounts.inside hinv.heap.tiles hgrant
    simp only [PoolChunk.arena] at *
    omega

/-- When nothing is held, the chunk is one free block. -/
theorem single_block (hinv : PoolInv mem pool blocks nodes) (hunused : usedBlocks blocks = []) :
    blocks = [⟨pool.chunkMem, pool.chunkSize - 4, .free⟩] := by
  have hfree : ∀ block ∈ blocks, block.isFree = true := by
    intro block hblock
    rcases (hinv.plain block hblock).2 with hfree | hstatus
    · exact hfree
    · have hmem : block ∈ usedBlocks blocks :=
        mem_usedBlocks.mpr ⟨hblock, by simp [Block.isUsed, hstatus]⟩
      simp [hunused] at hmem
  have hsize := pool.size_ge
  have htiles := hinv.heap.tiles
  have hseparate := hinv.separate
  cases blocks with
  | nil =>
      have hempty : pool.chunkMem = pool.chunkMem + pool.chunkSize := htiles
      omega
  | cons block rest =>
      cases rest with
      | nil =>
          obtain ⟨haddr, hstop⟩ := htiles
          have hstatus : block.status = .free := by
            simpa [Block.isFree] using hfree block List.mem_cons_self
          simp only [Tiles, Block.stop, PoolChunk.arena] at haddr hstop
          obtain ⟨addr, size, status⟩ := block
          simp only at haddr hstop hstatus
          simp only [List.cons.injEq, Block.mk.injEq, and_true]
          exact ⟨haddr, by omega, hstatus⟩
      | cons next rest =>
          -- Two neighbours would both be free.
          have hheld := (List.isChain_cons_cons.mp hseparate).1 (hfree block List.mem_cons_self)
          simp [hfree next (by simp)] at hheld

/-- The state after `init_pool_allocator`. -/
theorem poolInit_reach (hcontrols : Controls mem pool) :
    PoolReach pool (poolInit mem pool.allocator) := by
  obtain ⟨mem', nodes, hinit, hinv⟩ := initPoolAllocator_spec hcontrols
  refine ⟨[⟨pool.chunkMem, pool.chunkSize - 4, .free⟩], nodes, ?_,
    ⟨by simp [poolInit], by simp [usedBlocks, Block.isUsed]⟩⟩
  simp only [poolInit, hinit]
  exact hinv

end

/-- Whatever callers do, every call comes to its end and leaves a sound pool, in
which `pool_malloc` returns the null pointer exactly when nothing was asked for or
no free block is large enough, and which is one free block again when nothing is
held. -/
theorem pool_allocator_sound {mem : Mem} {allocator chunkMem chunkSize : Nat}
    (haligned : 8 ∣ chunkMem)
    (hsize : sizeofFreePool ≤ chunkSize) (hspace : chunkMem + chunkSize ≤ wordModulus)
    (hstruct : allocator + sizeofPoolAlloc ≤ wordModulus)
    (hapart : Apart allocator sizeofPoolAlloc chunkMem chunkSize)
    (hreserved : load32 mem allocator = 0) (hmem : load32 mem (chunkMemAt allocator) = chunkMem)
    (hchunk : load32 mem (chunkSizeAt allocator) = chunkSize)
    (haccepted : (initPoolAllocator mem allocator).1 = 0) {calls : List PoolCall}
    (hcalls : Promised (poolStep allocator) Permitted (poolInit mem allocator) calls) :
    ∃ final blocks, runMachine (poolStep allocator) (poolInit mem allocator) calls = some final ∧
      PoolSound allocator chunkMem chunkSize final blocks ∧
      (∀ size, size < wordModulus →
        ∃ unit mem', poolMalloc final.mem allocator size = some (unit, mem') ∧
          (unit = 0 ↔ size = 0 ∨ ∀ block ∈ blocks, block.isFree = true → block.size < size) ∧
          (unit ≠ 0 → ∀ grant ∈ final.owned, Apart unit size grant.unit grant.size)) ∧
      (final.owned = [] → blocks = [⟨chunkMem, chunkSize - 4, .free⟩] ∧
        freeSlots final.mem allocator = [chunkMem + 4] ∧
        load32 final.mem chunkMem = chunkSize - 4) := by
  obtain ⟨pool, rfl, rfl, rfl, hcontrols⟩ := exists_pool_of_accepted haligned hsize hspace hstruct
    hapart hreserved hmem hchunk haccepted
  obtain ⟨⟨mem', owned⟩, hrun, blocks, nodes, hinv, haccounts⟩ := runMachine_invariant
    (PoolReach pool) (fun _ _ hreach hpermitted => call_reach hreach hpermitted)
    (poolInit_reach hcontrols) hcalls
  have hsound := poolSound_of_reach hinv haccounts
  refine ⟨⟨mem', owned⟩, blocks, hrun, hsound, ?_, ?_⟩
  · intro size _
    obtain ⟨unit, mem'', blocks', hcall, hserved, hnull⟩ := poolMalloc_spec hinv size
    obtain ⟨nodes', hinv'⟩ := hserved.inv
    exact ⟨unit, mem'', hcall, hnull, fun hunit grant hgrant =>
      hserved.answer.apart hinv'.heap.tiles haccounts hunit hgrant⟩
  · rintro rfl
    have hblocks := single_block hinv haccounts.used_eq_nil
    subst hblocks
    refine ⟨rfl, List.perm_singleton.mp hsound.listed, ?_⟩
    exact hsound.headers _ List.mem_cons_self

/-- A `pool_alloc_t` at 1000, zeroed except for a chunk of 200 bytes at 64. -/
def samplePool : Mem := store32 (store32 (fun _ => 0) (chunkMemAt 1000) 64) (chunkSizeAt 1000) 200

/-- Three blocks, of which the middle one is freed last. -/
def freedInside : List PoolCall :=
  [.malloc 10, .strdup [104, 105], .malloc 24, .write 68 7, .free 68, .malloc 0,
    .free 100, .free 88]

theorem pool_allocator_sound_freedInside :
    ∃ final blocks, runMachine (poolStep 1000) (poolInit samplePool 1000) freedInside = some final ∧
      PoolSound 1000 64 200 final blocks ∧
      (∀ size, size < wordModulus →
        ∃ unit mem', poolMalloc final.mem 1000 size = some (unit, mem') ∧
          (unit = 0 ↔ size = 0 ∨ ∀ block ∈ blocks, block.isFree = true → block.size < size) ∧
          (unit ≠ 0 → ∀ grant ∈ final.owned, Apart unit size grant.unit grant.size)) ∧
      (final.owned = [] → blocks = [⟨64, 200 - 4, .free⟩] ∧
        freeSlots final.mem 1000 = [64 + 4] ∧ load32 final.mem 64 = 200 - 4) :=
  pool_allocator_sound (by decide) (by decide) (by decide) (by decide) (Or.inr (by decide))
    (by decide +kernel) (by decide +kernel) (by decide +kernel) (by decide +kernel)
    (by decide +kernel)

end McuProxy.Ckits.Pool
