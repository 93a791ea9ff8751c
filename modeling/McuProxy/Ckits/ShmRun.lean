/-
# Runs of the shared-memory allocator

The callers of a chunk hold references: a pointer together with the size that
was asked for, one for each `shm_malloc` and each `shm_add_reference` that has
not been freed. A run is any sequence of calls on references that are held and
of bytes written inside the memory that was asked for.

The first result says that a chunk stays sound when requests are larger than
four bytes. With smaller requests a block may be too small for the two links
that `shm_recycle` writes into it, and then the links overwrite what follows. The
second result says that this is the only way to damage another block.
-/

import McuProxy.Ckits.ShmCalls
import McuProxy.Memory.Accounts
import McuProxy.Math.Machine

namespace McuProxy.Ckits

open McuProxy.Memory McuProxy.Math

/-- Memory, and the references that are held. -/
structure ShmState where
  mem : Mem
  owned : List Grant

/-- What callers do: the calls of the allocator, and writing a byte. -/
inductive ShmCall
  | malloc (size : Nat)
  | strdup (s : List UInt8)
  | addReference (unit : Nat)
  | free (unit : Nat)
  | write (addr : Nat) (byte : UInt8)
  | attach
  deriving DecidableEq, Repr

namespace ShmCall

/-- The number of bytes that a call asks for. -/
def request : ShmCall → Option Nat
  | malloc size => some size
  | strdup s => if s.length = 0 then none else some (s.length + 1)
  | _ => none

/-- The reference that a call is about. -/
def target : ShmCall → Option Nat
  | addReference unit => some unit
  | free unit => some unit
  | _ => none

/-- The address that an owner writes to; `none` for the calls of the allocator. -/
def writes : ShmCall → Option Nat
  | write addr _ => some addr
  | _ => none

end ShmCall

/-- One call on the chunk of `chunkSize` bytes at `memStart`. -/
def shmStep (memStart chunkSize : Nat) (state : ShmState) : ShmCall → Option ShmState
  | .malloc size =>
      (shmMalloc state.mem memStart size).map fun (unit, mem) =>
        ⟨mem, granted state.owned unit size⟩
  | .strdup s =>
      (shmStrdup state.mem memStart s).map fun (unit, mem) =>
        ⟨mem, granted state.owned unit (s.length + 1)⟩
  | .addReference unit =>
      let (code, mem) := shmAddReference state.mem memStart unit
      some ⟨mem, if code = 0 then
        (state.owned.find? fun grant => grant.unit = unit).toList ++ state.owned else state.owned⟩
  | .free unit =>
      (shmFree state.mem memStart unit).map fun mem =>
        ⟨mem, state.owned.eraseP fun grant => grant.unit = unit⟩
  | .write addr byte => some { state with mem := store8 state.mem addr byte }
  | .attach => some { state with mem := (initShmAllocator state.mem memStart chunkSize).2 }

/-- The state after `init_shm_allocator`. -/
def shmInit (mem : Mem) (memStart chunkSize : Nat) : ShmState :=
  ⟨(initShmAllocator mem memStart chunkSize).2, []⟩

/-- What callers keep to: requests are positive sizes, calls are about references
that are held, and bytes are written inside the memory that was asked for. -/
def Permitted (state : ShmState) (call : ShmCall) : Prop :=
  (∀ size ∈ call.request, 0 < size ∧ size < wordModulus) ∧
    (∀ unit ∈ call.target, ∃ grant ∈ state.owned, grant.unit = unit) ∧
    ∀ addr ∈ call.writes, ∃ grant ∈ state.owned,
      grant.unit ≤ addr ∧ addr < grant.unit + grant.size

/-- The blocks on `freeParts`, as list objects in the order of the list. -/
def freeParts (mem : Mem) (info : Nat) : List Nat := listObjects mem info info

/-- The block that a call gives to `shm_recycle`: that of the last reference, and
a candidate that is too small for a request. -/
def recycled (mem : Mem) (info : Nat) (call : ShmCall) : Option Nat :=
  match call, call.request with
  | .free unit, _ => if load32 mem (unit - 4) &&& 3 = 0 then some (unit - 4) else none
  | _, some size =>
      let candiate := load32 mem (candiateAt info)
      if candiate ≠ 0 ∧ load32 mem (offsetNode info candiate) < size then
        some (offsetNode info candiate)
      else none
  | _, none => none

/-- A block that is recycled has eight bytes for the links, or starts where a
block on `freeParts` ends. -/
def Roomy (info : Nat) (state : ShmState) (call : ShmCall) : Prop :=
  ∀ cur ∈ recycled state.mem info call, 8 ≤ load32 state.mem cur ∨
    ∃ obj ∈ freeParts state.mem info,
      addrPlus (obj - 4) (efftsizeToPoolsize (load32 state.mem (obj - 4))) = cur

/-- A call comes to its end, and if it is one of the allocator it changes no byte
of another block in use, neither of its payload nor of its size word. -/
def Harmless (memStart chunkSize : Nat) (state : ShmState) (call : ShmCall) : Prop :=
  (shmStep memStart chunkSize state call).isSome = true ∧
    ∀ next ∈ shmStep memStart chunkSize state call, call.writes = none →
      ∀ grant ∈ state.owned, call.target ≠ some grant.unit →
        SameOn state.mem next.mem (grant.unit - 4)
          (grant.unit + (load32 state.mem (grant.unit - 4) &&& 0xFFFFFFFC))

instance (state : ShmState) (call : ShmCall) : Decidable (Permitted state call) :=
  inferInstanceAs (Decidable (_ ∧ _ ∧ _))

instance (info : Nat) (state : ShmState) (call : ShmCall) : Decidable (Roomy info state call) :=
  inferInstanceAs (Decidable (∀ cur ∈ recycled state.mem info call, _))

instance (memStart chunkSize : Nat) (state : ShmState) (call : ShmCall) :
    Decidable (Harmless memStart chunkSize state call) :=
  inferInstanceAs (Decidable (_ ∧ ∀ next ∈ shmStep memStart chunkSize state call, _))

section

variable {mem : Mem} {chunk : ShmChunk} {least : Nat} {blocks before after : List Block}
  {block : Block}

/-- The list visits the free blocks in the order of their addresses. -/
theorem freeParts_eq (hcore : ShmCore mem chunk least blocks) :
    freeParts mem chunk.start = freeLinks blocks :=
  listObjects_eq hcore.heap.ring hcore.heap.toShape.head_notMem hcore.heap.toShape.length_lt

/-- The condition on a block that is recycled, in terms of blocks. -/
theorem recyclable_of_roomy (hcore : ShmCore mem chunk least (before ++ block :: after))
    (hheader : load32 mem block.addr = block.size)
    (hroomy : 8 ≤ load32 mem block.addr ∨ ∃ obj ∈ freeParts mem chunk.start,
      addrPlus (obj - 4) (efftsizeToPoolsize (load32 mem (obj - 4))) = block.addr) :
    Recyclable before block := by
  rcases hroomy with hsize | ⟨obj, hobj, hend⟩
  · exact Or.inl (hheader ▸ hsize)
  · right
    rw [freeParts_eq hcore] at hobj
    obtain ⟨owner, howner, hfree, rfl⟩ := mem_freeLinks.mp hobj
    have htag := hcore.heap.headers owner howner
    rw [tag_of_free hfree] at htag
    rw [link_sub, htag, addrPlus_efftsize hcore.heap.tiles howner] at hend
    obtain ⟨front, rfl⟩ := left_of_stop hcore.heap.tiles howner hend
    exact ⟨front, owner, rfl, hfree⟩

end

/-- What every state of a run satisfies: the chunk is sound, and the references
that are held are those to its blocks. -/
def ShmReach (chunk : ShmChunk) (least : Nat) (state : ShmState) : Prop :=
  ∃ blocks, ShmInv state.mem chunk least blocks ∧ Accounts state.owned (usedBlocks blocks)

/-- A call leads to a state that is sound again, and keeps the blocks in use that
it is not about. -/
def Stepped (chunk : ShmChunk) (least : Nat) (blocks : List Block) (state : ShmState)
    (call : ShmCall) : Prop :=
  ∃ next, shmStep chunk.start chunk.size state call = some next ∧ ShmReach chunk least next ∧
    (call.writes = none → ∀ block ∈ usedBlocks blocks, call.target ≠ some block.link →
      SameOn state.mem next.mem block.addr block.stop)

section

variable {mem mem' : Mem} {owned : List Grant} {chunk : ShmChunk} {least size unit : Nat}
  {blocks blocks' before after : List Block} {block : Block}

/-- The candidate can be recycled whenever a request needs it to be. -/
theorem candidate_recyclable (hinv : ShmInv mem chunk least blocks) {call : ShmCall}
    (hrequest : call.request = some size) (hroomy : Roomy chunk.start ⟨mem, owned⟩ call) :
    ∀ before block after, blocks = before ++ block :: after → block.status = .spare →
      block.size < size → Recyclable before block := by
  rintro before block after rfl hstatus hsmall
  have hcore := hinv.toShmCore
  have hheader := hcore.heap.headers block (by simp)
  rw [Block.tag_eq_size (Or.inr hstatus)] at hheader
  have hword : load32 mem (candiateAt chunk.start) = block.addr - chunk.start := by
    rcases candidate_iff.mp hinv.candidate with ⟨_, hnone⟩ | ⟨other, hspare, hword⟩
    · simp [spareBlocks, hstatus] at hnone
    · have hmem : block ∈ spareBlocks (before ++ block :: after) := by simp [spareBlocks, hstatus]
      rw [hspare, List.mem_singleton] at hmem
      rw [hword, hmem]
  obtain ⟨hword', hnode, _, _⟩ := candidate_reads hcore hstatus hword
  refine recyclable_of_roomy hcore hheader (hroomy block.addr ?_)
  have hcases : recycled mem chunk.start call =
      if load32 mem (candiateAt chunk.start) ≠ 0 ∧
        load32 mem (offsetNode chunk.start (load32 mem (candiateAt chunk.start))) < size then
          some (offsetNode chunk.start (load32 mem (candiateAt chunk.start))) else none := by
    cases call with
    | malloc | strdup => simp only [recycled, hrequest]
    | addReference | free | write | attach => simp [ShmCall.request] at hrequest
  rw [hcases, hnode, hheader, if_pos ⟨hword', hsmall⟩]
  exact rfl

/-- A request in a state of a run. -/
theorem request_served (hinv : ShmInv mem chunk least blocks) (hpos : 0 < least)
    (hleast8 : least ≤ 8) {call : ShmCall} (hrequest : call.request = some size)
    (hroomy : Roomy chunk.start ⟨mem, owned⟩ call) (hsize : 0 < size)
    (hleast : least ≤ (size + 3) / 4 * 4) :
    ∃ unit mem' blocks', shmMalloc mem chunk.start size = some (unit, mem') ∧
      Served mem chunk least blocks size unit mem' blocks' :=
  shmMalloc_spec hinv hsize hpos hleast hleast8 (candidate_recyclable hinv hrequest hroomy)

theorem malloc_stepped (hinv : ShmInv mem chunk least blocks)
    (haccounts : Accounts owned (usedBlocks blocks)) (hpos : 0 < least) (hleast8 : least ≤ 8)
    (hroomy : Roomy chunk.start ⟨mem, owned⟩ (.malloc size)) (hsize : 0 < size)
    (hleast : least ≤ (size + 3) / 4 * 4) :
    Stepped chunk least blocks ⟨mem, owned⟩ (.malloc size) := by
  obtain ⟨unit, mem', blocks', hmalloc, hserved⟩ :=
    request_served hinv hpos hleast8 rfl hroomy hsize hleast
  refine ⟨⟨mem', granted owned unit size⟩, ?_,
    ⟨blocks', hserved.inv, haccounts.answered hserved.inv.heap.tiles hserved.outcome⟩,
    fun _ block hblock _ => hserved.kept block hblock⟩
  simp only [shmStep, hmalloc, Option.map_some]

/-- `shm_strdup` writes only into the block that it was given. -/
theorem strdup_stepped (hinv : ShmInv mem chunk least blocks)
    (haccounts : Accounts owned (usedBlocks blocks)) (hpos : 0 < least) (hleast8 : least ≤ 8)
    {s : List UInt8} (hroomy : Roomy chunk.start ⟨mem, owned⟩ (.strdup s))
    (hleast : s.length ≠ 0 → least ≤ (s.length + 1 + 3) / 4 * 4) :
    Stepped chunk least blocks ⟨mem, owned⟩ (.strdup s) := by
  by_cases hempty : s.length = 0
  · refine ⟨⟨mem, owned⟩, ?_, ⟨blocks, hinv, haccounts⟩, fun _ block _ _ => SameOn.refl _ _ _⟩
    simp [shmStep, shmStrdup, hempty, granted]
  · have hrequest : (ShmCall.strdup s).request = some (s.length + 1) := by
      simp only [ShmCall.request, if_neg hempty]
    obtain ⟨unit, mem₁, blocks', hmalloc, hserved⟩ :=
      request_served hinv hpos hleast8 hrequest hroomy (by omega) (hleast hempty)
    have haccounts' := haccounts.answered hserved.inv.heap.tiles hserved.outcome
    by_cases hunit : unit = 0
    · refine ⟨⟨mem₁, granted owned unit (s.length + 1)⟩, ?_, ⟨blocks', hserved.inv, haccounts'⟩,
        fun _ block hblock _ => hserved.kept block hblock⟩
      simp [shmStep, shmStrdup, hempty, hmalloc, hunit]
    · rcases hserved.outcome with ⟨hzero, _⟩ | ⟨block, rfl, hgranted⟩
      · exact absurd hzero hunit
      · have hblock : block ∈ usedBlocks blocks' :=
          hgranted.used_perm.mem_iff.mpr List.mem_cons_self
        have hroom := hgranted.room
        have hsame : ∀ addr, addr < block.link ∨ block.stop ≤ addr →
            writeBytes mem₁ block.link (s ++ [0]) addr = mem₁ addr := by
          intro addr haddr
          apply writeBytes_apply
          simp only [Block.link, Block.stop, List.length_append, List.length_singleton] at *
          omega
        refine ⟨⟨writeBytes mem₁ block.link (s ++ [0]), granted owned block.link (s.length + 1)⟩,
          ?_, ⟨blocks', hserved.inv.of_payload hblock hsame, haccounts'⟩, ?_⟩
        · simp [shmStep, shmStrdup, hempty, hmalloc, hunit]
        · intro _ other hother _
          refine (hserved.kept other hother).trans ?_
          have hapart := hgranted.apart hserved.inv.heap.tiles hother
          intro addr hlow hhigh
          apply hsame
          simp only [Block.link, Block.stop] at *
          omega

theorem addReference_stepped (hinv : ShmInv mem chunk least blocks)
    (haccounts : Accounts owned (usedBlocks blocks)) (hpos : 0 < least)
    (hheld : ∃ grant ∈ owned, grant.unit = unit) :
    Stepped chunk least blocks ⟨mem, owned⟩ (.addReference unit) := by
  obtain ⟨before, block, after, refs, rfl, hstatus, hused, rfl⟩ :=
    exists_block_of_held haccounts hheld
  rcases shmAddReference_spec hinv hpos hstatus with ⟨_, hcall⟩ | ⟨_, mem', hcall, hinv', hkept⟩
  · refine ⟨⟨mem, owned⟩, ?_, ⟨_, hinv, haccounts⟩, fun _ block _ _ => SameOn.refl _ _ _⟩
    simp [shmStep, hcall]
  · -- The reference is one more of those that are held already.
    obtain ⟨grant, hfind⟩ :
        ∃ grant, owned.find? (fun grant => grant.unit = block.link) = some grant := by
      rw [← Option.isSome_iff_exists, List.find?_isSome]
      simpa using hheld
    have hgrant := List.mem_of_find?_eq_some hfind
    have hunit : grant.unit = block.link := by simpa using List.find?_some hfind
    have hdistinct := usedBlocks_distinct hinv.heap.tiles
    rw [usedBlocks_split hused] at haccounts hdistinct
    have haccounts' := haccounts.share hdistinct hstatus hgrant hunit
    refine ⟨⟨mem', grant :: owned⟩, ?_, ⟨_, hinv', ?_⟩, ?_⟩
    · simp [shmStep, hcall, hfind]
    · rw [usedBlocks_split rfl]
      exact haccounts'
    · intro _ other hother htarget
      exact hkept other (mem_used_around hused hother htarget)

theorem free_stepped (hinv : ShmInv mem chunk least blocks)
    (haccounts : Accounts owned (usedBlocks blocks)) (hpos : 0 < least)
    (hroomy : Roomy chunk.start ⟨mem, owned⟩ (.free unit))
    (hheld : ∃ grant ∈ owned, grant.unit = unit) :
    Stepped chunk least blocks ⟨mem, owned⟩ (.free unit) := by
  obtain ⟨before, block, after, refs, rfl, hstatus, hused, rfl⟩ :=
    exists_block_of_held haccounts hheld
  have hdistinct := usedBlocks_distinct hinv.heap.tiles
  rw [usedBlocks_split hused] at haccounts hdistinct
  cases refs with
  | zero =>
      have hcore := hinv.toShmCore
      have hblock : block ∈ before ++ block :: after := by simp
      obtain ⟨hrefs, htag, hheader⟩ := used_reads hcore hblock hstatus
      obtain ⟨htagEq, _, hfield⟩ := tag_fields (hcore.sizes block hblock).1 hstatus hrefs htag
      have hrecycled : block.addr ∈ recycled mem chunk.start (.free block.link) := by
        simp [recycled, link_sub, hheader, hfield]
      have hroom : Recyclable before block :=
        recyclable_of_roomy hcore (hheader.trans htagEq) (hroomy block.addr hrecycled)
      obtain ⟨mem', blocks', hcall, hinv', hsame, hkept, _⟩ := shmFree_last hinv hpos hstatus hroom
      refine ⟨⟨mem', owned.eraseP fun grant => grant.unit = block.link⟩, ?_,
        ⟨blocks', hinv', ?_⟩, ?_⟩
      · simp [shmStep, hcall]
      · have hsplit : usedBlocks (before ++ after) = usedBlocks before ++ usedBlocks after := by
          simp [usedBlocks]
        rw [hsame, hsplit]
        exact haccounts.retire hdistinct hstatus hheld
      · intro _ other hother htarget
        exact hkept other (mem_used_around hused hother htarget)
  | succ refs =>
      obtain ⟨mem', hcall, hinv', hkept⟩ := shmFree_reference hinv hpos hstatus
      refine ⟨⟨mem', owned.eraseP fun grant => grant.unit = block.link⟩, ?_, ⟨_, hinv', ?_⟩, ?_⟩
      · simp [shmStep, hcall]
      · rw [usedBlocks_split rfl]
        exact haccounts.release hdistinct hstatus hheld
      · intro _ other hother htarget
        exact hkept other (mem_used_around hused hother htarget)

theorem write_stepped (hinv : ShmInv mem chunk least blocks)
    (haccounts : Accounts owned (usedBlocks blocks)) {addr : Nat} {byte : UInt8}
    (hinside : ∃ grant ∈ owned, grant.unit ≤ addr ∧ addr < grant.unit + grant.size) :
    Stepped chunk least blocks ⟨mem, owned⟩ (.write addr byte) := by
  obtain ⟨grant, hgrant, hlow, hhigh⟩ := hinside
  obtain ⟨block, hblock, hlink, hsize⟩ := haccounts.held grant hgrant
  refine ⟨⟨store8 mem addr byte, owned⟩, rfl, ⟨blocks, hinv.of_payload hblock ?_, haccounts⟩, ?_⟩
  · intro other hother
    have hne : other ≠ addr := by
      simp only [Block.link, Block.stop] at *
      omega
    simp only [store8, if_neg hne]
  · intro hnone
    simp [ShmCall.writes] at hnone

/-- Every call in a state of a run. -/
theorem call_stepped (hinv : ShmInv mem chunk least blocks)
    (haccounts : Accounts owned (usedBlocks blocks)) (hpos : 0 < least) (hleast8 : least ≤ 8)
    {call : ShmCall} (hpermitted : Permitted ⟨mem, owned⟩ call)
    (hroomy : Roomy chunk.start ⟨mem, owned⟩ call)
    (hleast : ∀ size ∈ call.request, least ≤ (size + 3) / 4 * 4) :
    Stepped chunk least blocks ⟨mem, owned⟩ call := by
  obtain ⟨hrequest, htarget, hwrites⟩ := hpermitted
  cases call with
  | malloc size =>
      exact malloc_stepped hinv haccounts hpos hleast8 hroomy (hrequest size rfl).1
        (hleast size rfl)
  | strdup s =>
      refine strdup_stepped hinv haccounts hpos hleast8 hroomy
        fun hlength => hleast (s.length + 1) ?_
      simp [ShmCall.request, hlength]
  | addReference unit => exact addReference_stepped hinv haccounts hpos (htarget unit rfl)
  | free unit => exact free_stepped hinv haccounts hpos hroomy (htarget unit rfl)
  | write addr byte => exact write_stepped hinv haccounts (hwrites addr rfl)
  | attach =>
      refine ⟨⟨mem, owned⟩, ?_, ⟨blocks, hinv, haccounts⟩, fun _ block _ _ => SameOn.refl _ _ _⟩
      simp only [shmStep, initShmAllocator_attach hinv.toShmCore]

/-- A call recycles the block of its reference or the candidate. -/
theorem recycled_cases {info cur : Nat} {call : ShmCall} (hcur : cur ∈ recycled mem info call) :
    (∃ unit, call.target = some unit ∧ cur = unit - 4) ∨
      (load32 mem (candiateAt info) ≠ 0 ∧
        cur = offsetNode info (load32 mem (candiateAt info))) := by
  unfold recycled at hcur
  split at hcur
  · split at hcur
    · exact Or.inl ⟨_, rfl, (Option.some.inj hcur).symm⟩
    · cases hcur
  · dsimp only at hcur
    split at hcur
    · rename_i hsmall
      exact Or.inr ⟨hsmall.1, (Option.some.inj hcur).symm⟩
    · cases hcur
  · cases hcur

/-- Blocks of eight bytes or more can always be recycled. -/
theorem roomy_of_sizes (hinv : ShmInv mem chunk 8 blocks)
    (haccounts : Accounts owned (usedBlocks blocks)) {call : ShmCall}
    (hpermitted : Permitted ⟨mem, owned⟩ call) : Roomy chunk.start ⟨mem, owned⟩ call := by
  have hcore := hinv.toShmCore
  intro cur hcur
  left
  have hblock : ∃ block ∈ blocks, block.addr = cur := by
    rcases recycled_cases hcur with ⟨unit, htarget, rfl⟩ | ⟨hword, rfl⟩
    · obtain ⟨before, block, after, refs, rfl, _, _, rfl⟩ :=
        exists_block_of_held haccounts (hpermitted.2.1 unit htarget)
      exact ⟨block, by simp, (link_sub block).symm⟩
    · cases hinv.candidate with
      | none hzero => exact absurd hzero hword
      | @some before after block hstatus hword' =>
          exact ⟨block, by simp, (candidate_reads hcore hstatus hword').2.1.symm⟩
  obtain ⟨block, hmem, rfl⟩ := hblock
  have hsize := (hcore.sizes block hmem).2
  have hle := size_le_tag block
  simp only [hcore.heap.headers block hmem]
  omega

/-- A chunk that is sound with the division of its memory into `blocks`. -/
structure ShmSound (memStart chunkSize : Nat) (state : ShmState) (blocks : List Block) : Prop where
  tiles : Tiles (memStart + sizeofShmAlloc) blocks (memStart + chunkSize)
  headers : ∀ block ∈ blocks, load32 state.mem block.addr = block.tag
  allocated : ∀ unit, (∃ grant ∈ state.owned, grant.unit = unit) ↔
    ∃ block ∈ usedBlocks blocks, block.link = unit
  listed : freeParts state.mem memStart = freeLinks blocks
  sorted : (freeParts state.mem memStart).Pairwise (· < ·)
  separate : ∀ first ∈ blocks, ∀ second ∈ blocks, first.isFree = true → second.isFree = true →
    first.stop ≠ second.addr
  candidate : (load32 state.mem (candiateAt memStart) = 0 ∧ spareBlocks blocks = []) ∨
    ∃ block, spareBlocks blocks = [block] ∧
      load32 state.mem (candiateAt memStart) = block.addr - memStart
  disjoint : ∀ first ∈ state.owned, ∀ second ∈ state.owned, first.unit ≠ second.unit →
    Apart first.unit first.size second.unit second.size
  clear : ∀ grant ∈ state.owned, ∀ block ∈ blocks, Apart block.addr 4 grant.unit grant.size
  inside : ∀ grant ∈ state.owned, memStart + sizeofShmAlloc ≤ grant.unit ∧
    grant.unit + grant.size ≤ memStart + chunkSize

/-- The invariant in terms of memory and references. -/
theorem shmSound_of_reach (hinv : ShmInv mem chunk least blocks)
    (haccounts : Accounts owned (usedBlocks blocks)) :
    ShmSound chunk.start chunk.size ⟨mem, owned⟩ blocks where
  tiles := hinv.heap.tiles
  headers := hinv.heap.headers
  allocated := fun _ => haccounts.held_iff
  listed := freeParts_eq hinv.toShmCore
  sorted := by
    rw [freeParts_eq hinv.toShmCore]
    exact freeLinks_sorted hinv.heap.tiles
  separate := fun first hfirst second hsecond =>
    hinv.separate.stop_ne hinv.heap.tiles hfirst hsecond
  candidate := candidate_iff.mp hinv.candidate
  disjoint := fun _ hfirst _ hsecond hne =>
    haccounts.disjoint hinv.heap.tiles hfirst hsecond hne
  clear := fun _ hgrant _ hblock => haccounts.clear hinv.heap.tiles hgrant hblock
  inside := by
    intro grant hgrant
    have hinside := haccounts.inside hinv.heap.tiles hgrant
    simp only [ShmChunk.arena, sizeofShmAlloc] at *
    omega

/-- A request in a sound chunk, in terms of memory and references. -/
theorem malloc_complete (hinv : ShmInv mem chunk 8 blocks)
    (haccounts : Accounts owned (usedBlocks blocks)) (hsize : 4 < size)
    (hword : size < wordModulus) :
    ∃ unit mem', shmMalloc mem chunk.start size = some (unit, mem') ∧
      (unit ≠ 0 ↔ ∃ length ∈ freeRuns 0 blocks, length - 4 ≥ size) ∧
      (unit ≠ 0 → ∀ grant ∈ owned, Apart unit size grant.unit grant.size) := by
  have hpermitted : Permitted ⟨mem, owned⟩ (.malloc size) := by
    refine ⟨?_, by simp [ShmCall.target], by simp [ShmCall.writes]⟩
    rintro other hother
    obtain rfl := Option.some.inj hother
    exact ⟨by omega, hword⟩
  obtain ⟨unit, mem', blocks', hmalloc, hserved⟩ := request_served hinv (by omega) le_rfl rfl
    (roomy_of_sizes hinv haccounts hpermitted) (by omega) (by omega)
  refine ⟨unit, mem', hmalloc, hserved.served_iff.trans ?_, ?_⟩
  · refine exists_congr fun length => and_congr_right fun _ => ?_
    omega
  · intro hunit grant hgrant
    exact hserved.outcome.apart hserved.inv.heap.tiles haccounts hunit hgrant

/-- The state after `init_shm_allocator` of a fresh chunk. -/
theorem shmInit_reach (hleast : least ≤ chunk.size - 24)
    (hfresh : load32 mem (magicFlagAt chunk.start) ≠ constMagicFlag) :
    ShmReach chunk least (shmInit mem chunk.start chunk.size) := by
  refine ⟨[firstBlock chunk], ?_, ?_⟩
  · simp only [shmInit, initShmAllocator_fresh chunk hfresh]
    exact freshChunk_inv mem chunk hleast
  · exact ⟨by simp [shmInit], by simp [usedBlocks, firstBlock, Block.isUsed]⟩

end

/-- Whatever callers do with requests of more than four bytes, every call comes
to its end and leaves a sound chunk, in which `shm_malloc` serves a request
exactly when a stretch of free memory has room for it, with memory that nobody
holds. -/
theorem shm_allocator_sound {mem : Mem} {memStart chunkSize : Nat} (hstart : 4 ∣ memStart)
    (hsize : 4 ∣ chunkSize) (hspace : memStart + chunkSize ≤ wordModulus)
    (hroom : sizeofShmAlloc + sizeofFreeShmPool ≤ chunkSize)
    (haccepted : (initShmAllocator mem memStart chunkSize).1 ≠ 0)
    (hfresh : load32 mem (magicFlagAt memStart) ≠ constMagicFlag) {calls : List ShmCall}
    (hcalls : Promised (shmStep memStart chunkSize)
      (fun state call => Permitted state call ∧ ∀ size ∈ call.request, 4 < size)
      (shmInit mem memStart chunkSize) calls) :
    ∃ final blocks, runMachine (shmStep memStart chunkSize) (shmInit mem memStart chunkSize) calls =
        some final ∧
      ShmSound memStart chunkSize final blocks ∧
      ∀ size, 4 < size → size < wordModulus →
        ∃ unit mem', shmMalloc final.mem memStart size = some (unit, mem') ∧
          (unit ≠ 0 ↔ ∃ length ∈ freeRuns 0 blocks, length - 4 ≥ size) ∧
          (unit ≠ 0 → ∀ grant ∈ final.owned, Apart unit size grant.unit grant.size) := by
  obtain ⟨chunk, rfl, rfl⟩ := exists_chunk_of_accepted hstart hsize hspace haccepted
  have hlarge : 8 ≤ chunk.size - 24 := by
    simp only [sizeofShmAlloc, sizeofFreeShmPool] at hroom
    omega
  obtain ⟨⟨mem', owned⟩, hrun, blocks, hinv, haccounts⟩ := runMachine_invariant (ShmReach chunk 8)
    (fun state call hreach hcall => by
      obtain ⟨blocks, hinv, haccounts⟩ := hreach
      obtain ⟨hpermitted, hsizes⟩ := hcall
      have hroomy := roomy_of_sizes hinv haccounts hpermitted
      obtain ⟨next, hstep, hnext, _⟩ :=
        call_stepped hinv haccounts (by omega) le_rfl hpermitted hroomy
        fun size hsize => by
          have hlt := hsizes size hsize
          omega
      exact ⟨next, hstep, hnext⟩)
    (shmInit_reach hlarge hfresh) hcalls
  exact ⟨⟨mem', owned⟩, blocks, hrun, shmSound_of_reach hinv haccounts,
    fun size hsize hword => malloc_complete hinv haccounts hsize hword⟩

/-- Three blocks, of which the middle one is shared, and a string; then the first
two are freed and merge. -/
def sharedBlocks : List ShmCall :=
  [.malloc 8, .malloc 12, .malloc 24, .write 88 7, .addReference 100, .free 100,
    .free 88, .free 100, .strdup [104, 101, 108, 108, 111], .attach]

theorem shm_allocator_sound_sharedBlocks :
    ∃ final blocks, runMachine (shmStep 64 200) (shmInit (fun _ => 0) 64 200) sharedBlocks =
        some final ∧
      ShmSound 64 200 final blocks ∧
      ∀ size, 4 < size → size < wordModulus →
        ∃ unit mem', shmMalloc final.mem 64 size = some (unit, mem') ∧
          (unit ≠ 0 ↔ ∃ length ∈ freeRuns 0 blocks, length - 4 ≥ size) ∧
          (unit ≠ 0 → ∀ grant ∈ final.owned, Apart unit size grant.unit grant.size) :=
  shm_allocator_sound (by decide) (by decide) (by decide) (by decide) (by decide) (by decide)
    (by decide +kernel)

/-- The bytes of a block as its owner sees it. -/
theorem sameOn_of_block {mem mem' : Mem} {chunk : ShmChunk} {least : Nat} {blocks : List Block}
    (hcore : ShmCore mem chunk least blocks) {block : Block} (hblock : block ∈ usedBlocks blocks)
    (hsame : SameOn mem mem' block.addr block.stop) :
    SameOn mem mem' (block.link - 4)
      (block.link + (load32 mem (block.link - 4) &&& 0xFFFFFFFC)) := by
  obtain ⟨hmem, hused⟩ := mem_usedBlocks.mp hblock
  obtain ⟨refs, hstatus⟩ := exists_refs hused
  obtain ⟨hrefs, htag, hheader⟩ := used_reads hcore hmem hstatus
  obtain ⟨_, hfield, _⟩ := tag_fields (hcore.sizes block hmem).1 hstatus hrefs htag
  rw [link_sub, hheader, hfield]
  exact hsame

/-- As long as every block that is recycled has room for the links or joins the
free block before it, no call changes a byte of another block in use. -/
theorem shm_calls_harmless_of_roomy {mem : Mem} {memStart chunkSize : Nat} (hstart : 4 ∣ memStart)
    (hsize : 4 ∣ chunkSize) (hspace : memStart + chunkSize ≤ wordModulus)
    (haccepted : (initShmAllocator mem memStart chunkSize).1 ≠ 0)
    (hfresh : load32 mem (magicFlagAt memStart) ≠ constMagicFlag) {calls : List ShmCall}
    (hcalls : Promised (shmStep memStart chunkSize) Permitted
      (shmInit mem memStart chunkSize) calls)
    (hroomy : Promised (shmStep memStart chunkSize) (Roomy memStart)
      (shmInit mem memStart chunkSize) calls) :
    Promised (shmStep memStart chunkSize) (Harmless memStart chunkSize)
      (shmInit mem memStart chunkSize) calls := by
  obtain ⟨chunk, rfl, rfl⟩ := exists_chunk_of_accepted hstart hsize hspace haccepted
  have hlarge : 4 ≤ chunk.size - 24 := by
    have hge := chunk.size_ge
    omega
  have hstepped : ∀ mem owned call blocks, ShmInv mem chunk 4 blocks →
      Accounts owned (usedBlocks blocks) → Permitted ⟨mem, owned⟩ call →
      Roomy chunk.start ⟨mem, owned⟩ call → Stepped chunk 4 blocks ⟨mem, owned⟩ call := by
    intro mem owned call blocks hinv haccounts hpermitted hroomy
    refine call_stepped hinv haccounts (by omega) (by omega) hpermitted hroomy ?_
    intro size hrequest
    have hpos := (hpermitted.1 size hrequest).1
    omega
  refine Promised.imp_invariant (ShmReach chunk 4) ?_ ?_ (shmInit_reach hlarge hfresh)
    (hcalls.and hroomy)
  · rintro ⟨mem, owned⟩ call ⟨blocks, hinv, haccounts⟩ ⟨hpermitted, hroomy⟩
    obtain ⟨next, hstep, _, hkept⟩ :=
      hstepped mem owned call blocks hinv haccounts hpermitted hroomy
    refine ⟨by rw [hstep]; rfl, ?_⟩
    intro other hother hwrites grant hgrant htarget
    obtain rfl : next = other := Option.some.inj (hstep.symm.trans hother)
    obtain ⟨block, hblock, hlink, _⟩ := haccounts.held grant hgrant
    rw [← hlink] at htarget ⊢
    exact sameOn_of_block hinv.toShmCore hblock (hkept hwrites block hblock htarget)
  · rintro ⟨mem, owned⟩ call next ⟨blocks, hinv, haccounts⟩ ⟨hpermitted, hroomy⟩ hnext
    obtain ⟨other, hstep, hreach, _⟩ :=
      hstepped mem owned call blocks hinv haccounts hpermitted hroomy
    obtain rfl : other = next := Option.some.inj (hstep.symm.trans hnext)
    exact hreach

/-- A short string between two larger blocks, freed after the block before it. -/
def shortString : List ShmCall :=
  [.malloc 8, .strdup [104, 105], .malloc 16, .free 88, .free 100]

theorem shm_calls_harmless_shortString :
    Promised (shmStep 64 200) (Harmless 64 200) (shmInit (fun _ => 0) 64 200) shortString :=
  shm_calls_harmless_of_roomy (by decide) (by decide) (by decide) (by decide) (by decide)
    (by decide +kernel) (by decide +kernel)

/-- Two blocks of four bytes, of which the first is freed: its links overwrite the
size word of the second. -/
theorem short_block_overwrites :
    Promised (shmStep 64 200) Permitted (shmInit (fun _ => 0) 64 200)
        [.malloc 4, .malloc 4, .free 88] ∧
      ¬ Promised (shmStep 64 200) (Harmless 64 200) (shmInit (fun _ => 0) 64 200)
        [.malloc 4, .malloc 4, .free 88] := by
  decide +kernel

end McuProxy.Ckits
