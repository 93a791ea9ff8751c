/-
# Reference counts of the shared-memory allocator

The number of references that were added to a block is kept in the two low bits of
its size word. This is right only as long as sizes are multiples of four. Sizes
that are asked for are rounded up, but the size of the whole chunk is not: it is
whatever lies between the header and the end of the chunk.

A chunk that ends at a multiple of four, or that has too little room for any block,
counts as it should. The tallies here say what the counts should be: how often a
reference was added to a block, and how often it was freed.
-/

import McuProxy.Ckits.ShmRun

namespace McuProxy.Ckits

open McuProxy.Memory McuProxy.Math

/-- A block that was handed out for a request of `size` bytes, with the numbers of
references added to it and of calls that freed it. -/
structure Tally where
  unit : Nat
  size : Nat
  adds : Nat
  frees : Nat
  deriving DecidableEq, Repr

/-- Memory, and the blocks that are owned. -/
structure RefState where
  mem : Mem
  live : List Tally

/-- What owners do: the calls on references, and writing a byte. -/
inductive RefCall
  | malloc (size : Nat)
  | addReference (unit : Nat)
  | free (unit : Nat)
  | write (addr : Nat) (byte : UInt8)
  deriving DecidableEq, Repr

namespace RefCall

/-- The number of bytes that a call asks for. -/
def request : RefCall → Option Nat
  | malloc size => some size
  | _ => none

/-- The block that a call is about. -/
def target : RefCall → Option Nat
  | addReference unit => some unit
  | free unit => some unit
  | _ => none

/-- The address that an owner writes to. -/
def writes : RefCall → Option Nat
  | write addr _ => some addr
  | _ => none

end RefCall

/-- The tallies with that of one block updated, or dropped. -/
def retally (live : List Tally) (unit : Nat) (update : Tally → Option Tally) : List Tally :=
  live.filterMap fun tally => if tally.unit = unit then update tally else some tally

/-- One more reference. -/
def Tally.shared (tally : Tally) : Option Tally := some { tally with adds := tally.adds + 1 }

/-- One more call that freed it; the one that makes them more than the references
that were added is the last. -/
def Tally.released (tally : Tally) : Option Tally :=
  if tally.frees + 1 = tally.adds + 1 then none else some { tally with frees := tally.frees + 1 }

/-- One call with the handle that `init_shm_allocator` returned. -/
def refStep (handle : Nat) (state : RefState) : RefCall → Option RefState
  | .malloc size =>
      (shmMalloc state.mem handle size).map fun (unit, mem) =>
        ⟨mem, if unit = 0 then state.live else ⟨unit, size, 0, 0⟩ :: state.live⟩
  | .addReference unit =>
      let (code, mem) := shmAddReference state.mem handle unit
      some ⟨mem, if code = 0 then retally state.live unit Tally.shared else state.live⟩
  | .free unit =>
      (shmFree state.mem handle unit).map fun mem => ⟨mem, retally state.live unit Tally.released⟩
  | .write addr byte => some { state with mem := store8 state.mem addr byte }

/-- The state after `init_shm_allocator`. -/
def refInit (mem : Mem) (memStart chunkSize : Nat) : RefState :=
  ⟨(initShmAllocator mem memStart chunkSize).2, []⟩

/-- What owners keep to: requests of more than four bytes, calls on blocks that are
owned, and bytes written inside the memory that was asked for. -/
def Owned (state : RefState) (call : RefCall) : Prop :=
  (∀ size ∈ call.request, 4 < size ∧ size < wordModulus) ∧
    (∀ unit ∈ call.target, ∃ tally ∈ state.live, tally.unit = unit) ∧
    ∀ addr ∈ call.writes, ∃ tally ∈ state.live,
      tally.unit ≤ addr ∧ addr < tally.unit + tally.size

instance (state : RefState) (call : RefCall) : Decidable (Owned state call) :=
  inferInstanceAs (Decidable (_ ∧ _ ∧ _))

/-- The payload at `unit` lies in a block on `freeParts`. -/
def InFreeParts (mem : Mem) (handle unit : Nat) : Prop :=
  ∃ obj ∈ freeParts mem handle, obj ≤ unit ∧ unit < obj + load32 mem (obj - 4)

instance (mem : Mem) (handle unit : Nat) : Decidable (InFreeParts mem handle unit) :=
  inferInstanceAs (Decidable (∃ obj ∈ freeParts mem handle, _))

/-- What a call does to the blocks that are owned: a reference is added if there
are less than three, the block goes back to the free list with the call that
frees its last reference and with no other, and the size words of other blocks
stay. -/
structure CountsBlock (handle : Nat) (mem mem' : Mem) (call : RefCall) (tally : Tally) : Prop where
  added : call = .addReference tally.unit →
    ((shmAddReference mem handle tally.unit).1 = 0 ↔ tally.adds - tally.frees < 3)
  returned : InFreeParts mem' handle tally.unit ↔
    call = .free tally.unit ∧ tally.frees + 1 = tally.adds + 1
  others : call.target ≠ some tally.unit →
    load32 mem' (tally.unit - 4) = load32 mem (tally.unit - 4)

theorem countsBlock_iff {handle : Nat} {mem mem' : Mem} {call : RefCall} {tally : Tally} :
    CountsBlock handle mem mem' call tally ↔
      (call = .addReference tally.unit →
        ((shmAddReference mem handle tally.unit).1 = 0 ↔ tally.adds - tally.frees < 3)) ∧
      (InFreeParts mem' handle tally.unit ↔
        call = .free tally.unit ∧ tally.frees + 1 = tally.adds + 1) ∧
      (call.target ≠ some tally.unit →
        load32 mem' (tally.unit - 4) = load32 mem (tally.unit - 4)) :=
  ⟨fun h => ⟨h.added, h.returned, h.others⟩, fun h => ⟨h.1, h.2.1, h.2.2⟩⟩

instance (handle : Nat) (mem mem' : Mem) (call : RefCall) (tally : Tally) :
    Decidable (CountsBlock handle mem mem' call tally) := decidable_of_iff' _ countsBlock_iff

/-- A call comes to its end, counts for every block that is owned, and leaves no
block that is still owned on the free list. -/
def Counts (handle : Nat) (state : RefState) (call : RefCall) : Prop :=
  (refStep handle state call).isSome = true ∧
    ∀ next ∈ refStep handle state call,
      (∀ tally ∈ state.live, CountsBlock handle state.mem next.mem call tally) ∧
        ∀ tally ∈ next.live, ¬ InFreeParts next.mem handle tally.unit

instance (handle : Nat) (state : RefState) (call : RefCall) :
    Decidable (Counts handle state call) :=
  inferInstanceAs (Decidable (_ ∧ ∀ next ∈ refStep handle state call, _))

/-! ## Tallies and blocks -/

/-- The tallies against the blocks in use: each block has the references that its
tally has in excess. -/
structure Tallied (live : List Tally) (used : List Block) : Prop where
  held : ∀ tally ∈ live, tally.frees ≤ tally.adds ∧
    ∃ block ∈ used, block.link = tally.unit ∧ tally.size ≤ block.size ∧
      block.status = .used (tally.adds - tally.frees)
  distinct : live.Pairwise fun first second => first.unit ≠ second.unit

/-- What every state of a run satisfies. -/
def RefReach (chunk : ShmChunk) (state : RefState) : Prop :=
  ∃ blocks, ShmInv state.mem chunk 8 blocks ∧ Tallied state.live (usedBlocks blocks)

section

variable {mem mem' : Mem} {chunk : ShmChunk} {live : List Tally} {tally : Tally}
  {least size unit : Nat}
  {used used' front back blocks before after : List Block} {block : Block}

/-- The block of a tally, and its neighbours. -/
theorem Tallied.exists_block (htallied : Tallied live (usedBlocks blocks)) (htally : tally ∈ live) :
    tally.frees ≤ tally.adds ∧ ∃ before block after, blocks = before ++ block :: after ∧
      block.isUsed = true ∧ block.link = tally.unit ∧ tally.size ≤ block.size ∧
      block.status = .used (tally.adds - tally.frees) := by
  obtain ⟨hle, block, hblock, hlink, hsize, hstatus⟩ := htallied.held tally htally
  obtain ⟨hmem, hused⟩ := mem_usedBlocks.mp hblock
  obtain ⟨before, after, rfl⟩ := List.append_of_mem hmem
  exact ⟨hle, before, block, after, rfl, hused, hlink, hsize, hstatus⟩

/-- A block has one tally. -/
theorem Tallied.unique (htallied : Tallied live used) {other : Tally} (htally : tally ∈ live)
    (hother : other ∈ live) (hunit : tally.unit = other.unit) : tally = other := by
  have hnodup : (live.map Tally.unit).Nodup := by
    rw [List.nodup_iff_pairwise_ne, List.pairwise_map]
    exact htallied.distinct
  exact List.inj_on_of_nodup_map hnodup htally hother hunit

/-- A new block comes with an empty tally. -/
theorem Tallied.issue (htallied : Tallied live used) (hdistinct : Distinct (block :: used))
    (hstatus : block.status = .used 0) (hsize : size ≤ block.size)
    (hperm : used'.Perm (block :: used)) :
    Tallied (⟨block.link, size, 0, 0⟩ :: live) used' where
  held := by
    rw [List.forall_mem_cons]
    refine ⟨⟨le_rfl, block, hperm.mem_iff.mpr List.mem_cons_self, rfl, hsize, hstatus⟩, ?_⟩
    intro tally htally
    obtain ⟨hle, other, hother, hfacts⟩ := htallied.held tally htally
    exact ⟨hle, other, hperm.mem_iff.mpr (List.mem_cons_of_mem _ hother), hfacts⟩
  distinct := by
    refine List.pairwise_cons.mpr ⟨?_, htallied.distinct⟩
    intro tally htally
    obtain ⟨_, other, hother, hlink, _⟩ := htallied.held tally htally
    rw [← hlink]
    exact List.rel_of_pairwise_cons hdistinct hother

theorem Tally.shared_unit {tally' : Tally} (htally : tally' ∈ tally.shared) :
    tally'.unit = tally.unit := by
  obtain rfl := Option.some.inj htally
  rfl

theorem Tally.released_unit {tally' : Tally} (htally : tally' ∈ tally.released) :
    tally'.unit = tally.unit := by
  rw [Tally.released] at htally
  split at htally
  · cases htally
  · obtain rfl := Option.some.inj htally
    rfl

/-- The tally of one block changes with the block. -/
theorem Tallied.exchange (htallied : Tallied live (front ++ block :: back))
    (hdistinct : Distinct (front ++ block :: back)) (middle : List Block)
    {update : Tally → Option Tally}
    (hunit : ∀ tally, ∀ tally' ∈ update tally, tally'.unit = tally.unit)
    (hupdate : ∀ tally ∈ live, tally.unit = block.link → ∀ tally' ∈ update tally,
      tally'.frees ≤ tally'.adds ∧ ∃ other ∈ middle, other.link = block.link ∧
        tally'.size ≤ other.size ∧ other.status = .used (tally'.adds - tally'.frees)) :
    Tallied (retally live block.link update) (front ++ (middle ++ back)) where
  held := by
    intro tally' htally'
    obtain ⟨tally, htally, hkept⟩ := List.mem_filterMap.mp htally'
    split at hkept
    · rename_i hsame
      obtain ⟨hle, other, hother, hlink, hfacts⟩ := hupdate tally htally hsame tally' hkept
      refine ⟨hle, other, by simp [hother], ?_, hfacts⟩
      rw [hlink, ← hsame, hunit tally tally' hkept]
    · rename_i hne
      obtain rfl := Option.some.inj hkept
      obtain ⟨hle, other, hother, hlink, hfacts⟩ := htallied.held tally htally
      refine ⟨hle, other, ?_, hlink, hfacts⟩
      rcases List.mem_cons.mp (List.perm_middle.mem_iff.mp hother) with rfl | hothers
      · exact absurd hlink.symm hne
      · simp only [List.mem_append] at hothers ⊢
        tauto
  distinct := by
    have hkept : ∀ tally tally', (if tally.unit = block.link then update tally else some tally) =
        some tally' → tally'.unit = tally.unit := by
      intro tally tally' hsome
      split at hsome
      · exact hunit tally tally' hsome
      · obtain rfl := Option.some.inj hsome
        rfl
    refine List.Pairwise.filterMap _ ?_ htallied.distinct
    intro first second hne first' hfirst second' hsecond
    rw [hkept first first' hfirst, hkept second second' hsecond]
    exact hne

/-! ## Blocks and the free list -/

/-- A block in use is not on the free list. -/
theorem notFree_of_used (hcore : ShmCore mem chunk least blocks)
    (hblock : block ∈ usedBlocks blocks) :
    ¬ InFreeParts mem chunk.start block.link := by
  rintro ⟨obj, hobj, hlow, hhigh⟩
  obtain ⟨hmem, hused⟩ := mem_usedBlocks.mp hblock
  rw [freeParts_eq hcore] at hobj
  obtain ⟨owner, howner, hfree, rfl⟩ := mem_freeLinks.mp hobj
  have hheader := hcore.heap.headers owner howner
  rw [tag_of_free hfree] at hheader
  rw [link_sub, hheader] at hhigh
  rcases tiles_apart hcore.heap.tiles hmem howner with rfl | hapart
  · simp [isUsed_of_free hfree] at hused
  · simp only [Block.link, Block.stop] at *
    omega

/-- A block that lies in a free one is on the free list. -/
theorem free_of_covered (hcore : ShmCore mem chunk least blocks) {owner : Block}
    (howner : owner ∈ blocks)
    (hfree : owner.isFree = true) (haddr : owner.addr ≤ block.addr)
    (hstop : block.stop ≤ owner.stop)
    (hsize : 0 < block.size) : InFreeParts mem chunk.start block.link := by
  have hheader := hcore.heap.headers owner howner
  rw [tag_of_free hfree] at hheader
  refine ⟨owner.link, ?_, ?_, ?_⟩
  · rw [freeParts_eq hcore]
    exact mem_freeLinks.mpr ⟨owner, howner, hfree, rfl⟩
  · simp only [Block.link]
    omega
  · rw [link_sub, hheader]
    simp only [Block.link, Block.stop] at *
    omega

/-- The size word of a block that is kept. -/
theorem word_of_kept {kept : List Block} (hkept : Kept mem mem' kept) (hblock : block ∈ kept) :
    load32 mem' (block.link - 4) = load32 mem (block.link - 4) := by
  rw [link_sub]
  refine load32_congr ((hkept block hblock).mono le_rfl ?_)
  simp only [Block.stop]
  omega

/-- A call that a block in use is not the target of, and that keeps it. -/
theorem countsBlock_of_kept {call : RefCall} (hcore : ShmCore mem' chunk least blocks)
    (hblock : block ∈ usedBlocks blocks) (hlink : block.link = tally.unit)
    (htarget : call.target ≠ some tally.unit)
    (hword : load32 mem' (block.link - 4) = load32 mem (block.link - 4)) :
    CountsBlock chunk.start mem mem' call tally where
  added := by
    rintro rfl
    exact absurd rfl htarget
  returned := by
    refine iff_of_false (hlink ▸ notFree_of_used hcore hblock) ?_
    rintro ⟨rfl, -⟩
    exact htarget rfl
  others := fun _ => hlink ▸ hword

/-! ## One call -/

/-- A call leads to a state of a run again, and counts for every block. -/
def RefStepped (chunk : ShmChunk) (state : RefState) (call : RefCall) : Prop :=
  ∃ next, refStep chunk.start state call = some next ∧ RefReach chunk next ∧
    ∀ tally ∈ state.live, CountsBlock chunk.start state.mem next.mem call tally

theorem malloc_counts (hinv : ShmInv mem chunk 8 blocks)
    (htallied : Tallied live (usedBlocks blocks))
    (hsize : 4 < size) : RefStepped chunk ⟨mem, live⟩ (.malloc size) := by
  obtain ⟨unit, mem', blocks', hcall, hserved⟩ := shmMalloc_spec hinv (show 0 < size by omega)
    (by omega) (show 8 ≤ (size + 3) / 4 * 4 by omega) le_rfl
    fun before block after hblocks _ _ => Or.inl (hinv.sizes block (by simp [hblocks])).2
  have hcore' := hserved.inv.toShmCore
  have hcounts : (∀ block ∈ usedBlocks blocks, block ∈ usedBlocks blocks') → ∀ tally ∈ live,
      CountsBlock chunk.start mem mem' (.malloc size) tally := by
    intro hstay tally htally
    obtain ⟨_, block, hblock, hlink, _⟩ := htallied.held tally htally
    exact countsBlock_of_kept hcore' (hstay block hblock) hlink (by simp [RefCall.target])
      (word_of_kept hserved.kept hblock)
  rcases hserved.outcome with ⟨rfl, hused⟩ | ⟨granted, rfl, hgranted⟩
  · refine ⟨⟨mem', live⟩, by simp [refStep, hcall], ⟨blocks', hserved.inv, hused ▸ htallied⟩,
      hcounts fun block hblock => hused ▸ hblock⟩
  · have hlink : granted.link ≠ 0 := by simp [Block.link]
    have hdistinct := (usedBlocks_distinct hcore'.heap.tiles).perm hgranted.used_perm
    refine ⟨⟨mem', ⟨granted.link, size, 0, 0⟩ :: live⟩, by simp [refStep, hcall, hlink],
      ⟨blocks', hserved.inv, htallied.issue hdistinct hgranted.status hgranted.room
        hgranted.used_perm⟩, ?_⟩
    exact hcounts fun block hblock => hgranted.used_perm.mem_iff.mpr (List.mem_cons_of_mem _ hblock)

/-- The blocks that a call on `block` is not about. -/
theorem countsBlock_of_other {call : RefCall} {other : Tally}
    (htallied : Tallied live (usedBlocks (before ++ block :: after))) (hused : block.isUsed = true)
    (hcore : ShmCore mem' chunk least blocks) (hother : other ∈ live)
    (hstay : ∀ kept ∈ usedBlocks (before ++ after), kept ∈ usedBlocks blocks)
    (hkept : Kept mem mem' (usedBlocks (before ++ after))) (htarget : call.target = some block.link)
    (hunit : other.unit ≠ block.link) : CountsBlock chunk.start mem mem' call other := by
  obtain ⟨_, kept, hmem, hlink, _⟩ := htallied.held other hother
  have hnot : call.target ≠ some kept.link := by
    rw [htarget, hlink]
    simpa using hunit.symm
  have haround : kept ∈ usedBlocks (before ++ after) := by
    refine mem_used_around hused hmem ?_
    rw [hlink]
    simpa using hunit.symm
  exact countsBlock_of_kept hcore (hstay kept haround) hlink (hlink ▸ hnot)
    (word_of_kept hkept haround)

/-- One block of a chunk changes its number of references, and its tally does the
same. -/
theorem retagged_reach {refs : Nat} (call : RefCall) {update : Tally → Option Tally}
    {tally' : Tally}
    (htallied : Tallied live (usedBlocks (before ++ block :: after))) (htally : tally ∈ live)
    (hused : block.isUsed = true) (hlink : block.link = tally.unit)
    (hsize : tally.size ≤ block.size)
    (hdistinct : Distinct (usedBlocks (before ++ block :: after)))
    (hinv : ShmInv mem' chunk 8 (before ++ { block with status := .used refs } :: after))
    (hkept : Kept mem mem' (usedBlocks (before ++ after)))
    (hunit : ∀ tally, ∀ tally' ∈ update tally, tally'.unit = tally.unit)
    (hupdate : update tally = some tally') (hsame : tally'.size = tally.size)
    (hle : tally'.frees ≤ tally'.adds) (hrefs : refs = tally'.adds - tally'.frees)
    (htarget : call.target = some block.link) :
    RefReach chunk ⟨mem', retally live block.link update⟩ ∧
      ¬ InFreeParts mem' chunk.start block.link ∧
      ∀ other ∈ live, other ≠ tally → CountsBlock chunk.start mem mem' call other := by
  let retagged : Block := { block with status := .used refs }
  have hretagged : retagged ∈ usedBlocks (before ++ retagged :: after) :=
    mem_usedBlocks.mpr ⟨by simp, rfl⟩
  have hfree : ¬ InFreeParts mem' chunk.start retagged.link :=
    notFree_of_used hinv.toShmCore hretagged
  refine ⟨⟨_, hinv, ?_⟩, hfree, ?_⟩
  · have hsplit := htallied
    rw [usedBlocks_split hused] at hdistinct hsplit
    rw [usedBlocks_split rfl]
    refine hsplit.exchange hdistinct [retagged] hunit ?_
    intro other hother hotherUnit other' hother'
    obtain rfl := htallied.unique hother htally (hotherUnit.trans hlink)
    obtain rfl := Option.some.inj (hupdate.symm.trans hother')
    exact ⟨hle, retagged, List.mem_singleton_self _, rfl, hsame ▸ hsize, hrefs ▸ rfl⟩
  · intro other hother hne
    have hotherUnit : other.unit ≠ block.link := fun heq =>
      hne (htallied.unique hother htally (heq.trans hlink))
    refine countsBlock_of_other htallied hused hinv.toShmCore hother ?_ hkept htarget hotherUnit
    intro kept hmem
    rw [usedBlocks_split rfl]
    simp only [usedBlocks, List.filter_append, List.mem_append, List.mem_cons] at hmem ⊢
    tauto

theorem addReference_counts (hinv : ShmInv mem chunk 8 blocks)
    (htallied : Tallied live (usedBlocks blocks)) (htally : tally ∈ live) :
    RefStepped chunk ⟨mem, live⟩ (.addReference tally.unit) := by
  obtain ⟨hle, before, block, after, rfl, hused, hlink, hsize, hstatus⟩ :=
    htallied.exists_block htally
  rw [← hlink]
  rcases shmAddReference_spec hinv (by omega) hstatus with
    ⟨hfull, hcall⟩ | ⟨hroom, mem', hcall, hinv', hkept⟩
  · refine ⟨⟨mem, live⟩, by simp [refStep, hcall], ⟨_, hinv, htallied⟩, ?_⟩
    intro other hother
    have hfree : ¬ InFreeParts mem chunk.start other.unit := by
      obtain ⟨_, owner, howner, hownerLink, _⟩ := htallied.held other hother
      exact hownerLink ▸ notFree_of_used hinv.toShmCore howner
    refine ⟨fun hsame => ?_, iff_of_false hfree (by simp), fun _ => rfl⟩
    obtain rfl := htallied.unique hother htally ((RefCall.addReference.inj hsame).symm.trans hlink)
    rw [← hlink, hcall]
    exact iff_of_false (by simp) (by omega)
  · obtain ⟨hreach, hfree, hothers⟩ := retagged_reach (.addReference block.link) htallied htally
      hused hlink hsize (usedBlocks_distinct hinv.heap.tiles) hinv' hkept
      (fun _ _ h => Tally.shared_unit h)
      (show tally.shared = some { tally with adds := tally.adds + 1 } from rfl) rfl
      (show tally.frees ≤ tally.adds + 1 by omega)
      (show tally.adds - tally.frees + 1 = tally.adds + 1 - tally.frees by omega) rfl
    refine ⟨⟨mem', retally live block.link Tally.shared⟩, by simp [refStep, hcall], hreach, ?_⟩
    intro other hother
    by_cases hsame : other = tally
    · subst hsame
      refine ⟨fun _ => ?_, iff_of_false (hlink ▸ hfree) (by simp), fun hne => ?_⟩
      · rw [← hlink, hcall]
        exact iff_of_true rfl hroom
      · exact absurd (congrArg some hlink) hne
    · exact hothers other hother hsame

theorem free_counts (hinv : ShmInv mem chunk 8 blocks)
    (htallied : Tallied live (usedBlocks blocks)) (htally : tally ∈ live) :
    RefStepped chunk ⟨mem, live⟩ (.free tally.unit) := by
  obtain ⟨hle, before, block, after, rfl, hused, hlink, hsize, hstatus⟩ :=
    htallied.exists_block htally
  have hdistinct := usedBlocks_distinct hinv.heap.tiles
  rw [← hlink]
  by_cases hlast : tally.frees = tally.adds
  · have hsingle : block.status = .used 0 := by rw [hstatus, hlast, Nat.sub_self]
    have hroom := (hinv.sizes block (by simp)).2
    obtain ⟨mem', blocks', hcall, hinv', hsame, hkept, owner, howner, hfree, haddr, hstop⟩ :=
      shmFree_last hinv (by omega) hsingle (Or.inl hroom)
    have hdropped : tally.released = none := by rw [Tally.released, if_pos (by omega)]
    refine ⟨⟨mem', retally live block.link Tally.released⟩, by simp [refStep, hcall],
      ⟨blocks', hinv', ?_⟩, ?_⟩
    · have hsplit := htallied
      rw [usedBlocks_split hused] at hdistinct hsplit
      have hparts : usedBlocks (before ++ after) =
        usedBlocks before ++ ([] ++ usedBlocks after) := by
        simp [usedBlocks]
      rw [hsame, hparts]
      refine hsplit.exchange hdistinct [] (fun _ _ h => Tally.released_unit h) ?_
      intro other hother hunit other' hother'
      obtain rfl := htallied.unique hother htally (hunit.trans hlink)
      rw [hdropped] at hother'
      cases hother'
    · intro other hother
      by_cases hunit : other.unit = block.link
      · obtain rfl := htallied.unique hother htally (hunit.trans hlink)
        refine ⟨by simp, iff_of_true ?_ ⟨by rw [hlink], by omega⟩, ?_⟩
        · rw [← hlink]
          exact free_of_covered hinv'.toShmCore howner hfree haddr hstop (by omega)
        · exact fun hne => absurd (congrArg some hlink) hne
      · exact countsBlock_of_other htallied hused hinv'.toShmCore hother
          (fun kept hmem => hsame ▸ hmem) hkept rfl hunit
  · obtain ⟨refs, hrefs⟩ : ∃ refs, tally.adds - tally.frees = refs + 1 :=
      ⟨tally.adds - tally.frees - 1, by omega⟩
    rw [hrefs] at hstatus
    obtain ⟨mem', hcall, hinv', hkept⟩ := shmFree_reference hinv (by omega) hstatus
    have hreleased : tally.released = some { tally with frees := tally.frees + 1 } := by
      rw [Tally.released, if_neg (by omega)]
    obtain ⟨hreach, hfree, hothers⟩ := retagged_reach (.free block.link) htallied htally hused
      hlink hsize hdistinct hinv' hkept (fun _ _ h => Tally.released_unit h) hreleased rfl
      (show tally.frees + 1 ≤ tally.adds by omega)
      (show refs = tally.adds - (tally.frees + 1) by omega) rfl
    refine ⟨⟨mem', retally live block.link Tally.released⟩, by simp [refStep, hcall], hreach, ?_⟩
    intro other hother
    by_cases hsame : other = tally
    · subst hsame
      refine ⟨by simp, iff_of_false (hlink ▸ hfree) ?_, fun hne => ?_⟩
      · rintro ⟨-, hcount⟩
        omega
      · exact absurd (congrArg some hlink) hne
    · exact hothers other hother hsame

theorem write_counts (hinv : ShmInv mem chunk 8 blocks)
    (htallied : Tallied live (usedBlocks blocks))
    {addr : Nat} (byte : UInt8) (htally : tally ∈ live) (hlow : tally.unit ≤ addr)
    (hhigh : addr < tally.unit + tally.size) :
    RefStepped chunk ⟨mem, live⟩ (.write addr byte) := by
  obtain ⟨_, block, hblock, hlink, hsize, _⟩ := htallied.held tally htally
  have hsame : ∀ other, other ≠ addr → store8 mem addr byte other = mem other := fun other hne => by
    simp only [store8, if_neg hne]
  have hinv' : ShmInv (store8 mem addr byte) chunk 8 blocks := by
    refine hinv.of_payload hblock fun other hother => hsame other ?_
    simp only [Block.link, Block.stop] at *
    omega
  refine ⟨⟨store8 mem addr byte, live⟩, rfl, ⟨blocks, hinv', htallied⟩, ?_⟩
  intro other hother
  obtain ⟨_, owner, howner, hownerLink, _⟩ := htallied.held other hother
  refine countsBlock_of_kept hinv'.toShmCore howner hownerLink (by simp [RefCall.target]) ?_
  -- The size word of a block is not part of the payload of any.
  have hapart := tiles_apart hinv.heap.tiles (mem_usedBlocks.mp hblock).1
    (mem_usedBlocks.mp howner).1
  refine load32_congr fun word hwordLow hwordHigh => hsame word ?_
  rw [link_sub] at hwordLow hwordHigh
  rcases hapart with rfl | hapart
  · simp only [Block.link] at *
    omega
  · simp only [Block.link, Block.stop] at *
    omega

/-- Every call on blocks that are owned. -/
theorem RefReach.step {state : RefState} (hreach : RefReach chunk state) {call : RefCall}
    (howned : Owned state call) : RefStepped chunk state call := by
  obtain ⟨mem, live⟩ := state
  obtain ⟨blocks, hinv, htallied⟩ := hreach
  obtain ⟨hrequest, htarget, hwrites⟩ := howned
  cases call with
  | malloc size => exact malloc_counts hinv htallied (hrequest size rfl).1
  | addReference unit =>
      obtain ⟨tally, htally, rfl⟩ := htarget unit rfl
      exact addReference_counts hinv htallied htally
  | free unit =>
      obtain ⟨tally, htally, rfl⟩ := htarget unit rfl
      exact free_counts hinv htallied htally
  | write addr byte =>
      obtain ⟨tally, htally, hlow, hhigh⟩ := hwrites addr rfl
      exact write_counts hinv htallied byte htally hlow hhigh

/-- In a state of a run a call counts. -/
theorem RefReach.counts {state : RefState} (hreach : RefReach chunk state) {call : RefCall}
    (howned : Owned state call) : Counts chunk.start state call := by
  obtain ⟨next, hstep, hreach', hcounts⟩ := hreach.step howned
  refine ⟨by rw [hstep]; rfl, ?_⟩
  intro other hother
  obtain rfl := Option.some.inj (hstep.symm.trans hother)
  refine ⟨hcounts, fun tally htally => ?_⟩
  obtain ⟨blocks, hinv, htallied⟩ := hreach'
  obtain ⟨_, block, hblock, hlink, _⟩ := htallied.held tally htally
  exact hlink ▸ notFree_of_used hinv.toShmCore hblock

end

/-! ## A single block

A block that is alone in its chunk with the free list, recycled and harvested. It may
be the last thing in the address space, with links that are not all in memory. -/

section

variable {mem : Mem} {start node : Nat}

theorem ring_store_candidate {nodes : List Nat} (hring : Ring mem start start nodes)
    (hnodes : ∀ obj ∈ nodes, start + 12 ≤ obj) (value : Nat) :
    Ring (store32 mem (candiateAt start) value) start start nodes := by
  refine ring_congr ?_ hring
  rw [List.forall_mem_cons]
  refine ⟨store32_sameOn ?_, fun obj hobj => store32_sameOn ?_⟩
  · simp only [Apart, candiateAt]
    omega
  · have hlow := hnodes obj hobj
    simp only [Apart, candiateAt]
    omega

/-- Behind the candidate word a store to it changes nothing. -/
theorem store_candidate_apply {value addr : Nat} (haddr : start + 12 ≤ addr) :
    store32 mem (candiateAt start) value addr = mem addr := by
  apply store32_apply
  simp only [candiateAt]
  omega

/-- With nothing on the free list there is no candidate. -/
theorem shmHarvest_nil (hring : Ring mem start start []) :
    shmHarvest mem start = some (store32 mem (candiateAt start) 0) := by
  have hwalk : walk (harvestBody mem) [] (0, 0) = (none, (0, 0)) := rfl
  have hloop := listForEach_readonly hring (by simp) (by decide) (harvestBody mem) (0, 0)
  rw [hwalk] at hloop
  rw [shmHarvest, hloop]
  simp

/-- The loop of `shm_harvest` over the only block. -/
theorem harvest_loop_single (hlow : start + 20 ≤ node) (hring : Ring mem start start [node + 4]) :
    listForEach (fun _ => mem) start start (harvestBody mem) (0, 0) =
      some (start, if 0 < load32 mem node then (load32 mem node, node) else (0, 0)) := by
  have hhead : start ∉ [node + 4] := by
    rw [List.mem_singleton]
    omega
  have hlength : [node + 4].length < loopFuel := by
    rw [List.length_singleton]
    decide
  have hbody : harvestBody mem (node + 4) (0, 0) =
      .cont (if 0 < load32 mem node then (load32 mem node, node) else (0, 0)) := by
    rw [harvestBody, Nat.add_sub_cancel]
    exact (apply_ite Flow.cont _ _ _).symm
  have hwalk : walk (harvestBody mem) [node + 4] (0, 0) =
      (none, if 0 < load32 mem node then (load32 mem node, node) else (0, 0)) := by
    rw [walk, hbody]
    rfl
  rw [listForEach_readonly hring hhead hlength, hwalk]
  rfl

/-- With one block on the free list it becomes the candidate, unless it is empty.
Between the candidate word and the links nothing changes. -/
theorem shmHarvest_single (hstart : 0 < start) (hlow : start + 20 ≤ node)
    (htop : node < wordModulus) (hring : Ring mem start start [node + 4]) :
    ∃ mem', shmHarvest mem start = some mem' ∧
      (∀ addr, start + 12 ≤ addr → addr < node + 4 → mem' addr = mem addr) ∧
      (0 < load32 mem node → Ring mem' start start [] ∧
        load32 mem' (candiateAt start) = node - start) ∧
      (load32 mem node = 0 → Ring mem' start start [node + 4] ∧
        load32 mem' (candiateAt start) = 0) := by
  have hloop := harvest_loop_single hlow hring
  by_cases hsize : 0 < load32 mem node
  · rw [if_pos hsize] at hloop
    obtain ⟨hring', huntouched⟩ := ring_del_single hring (Or.inr (by omega)) ⟨le_rfl, by omega⟩
    refine ⟨store32 (listDel mem start (node + 4)) (candiateAt start) (offsetPointer node start),
      ?_, ?_, fun _ => ⟨ring_store_candidate hring' (by simp) _, ?_⟩,
        fun hzero => absurd hzero hsize.ne'⟩
    · rw [shmHarvest, hloop]
      simp only [Option.map_some]
      rw [if_pos ⟨hsize.ne', by omega⟩]
    · intro addr hge hlt
      rw [store_candidate_apply hge]
      apply huntouched
      rw [List.forall_mem_cons, List.forall_mem_singleton]
      omega
    · rw [load32_store32_same, offsetPointer, subWord_eq (by omega) (by omega),
        Nat.mod_eq_of_lt (by omega)]
  · rw [if_neg hsize] at hloop
    refine ⟨store32 mem (candiateAt start) 0, ?_, fun addr hge _ => store_candidate_apply hge,
      fun hpos => absurd hpos hsize, fun _ => ⟨ring_store_candidate hring ?_ 0, ?_⟩⟩
    · rw [shmHarvest, hloop]
      simp
    · rw [List.forall_mem_singleton]
      omega
    · rw [load32_store32_same]
      rfl

/-- The candidate, set aside no longer and recycled, becomes the free list. -/
theorem shmRecycle_single (hstart : 0 < start) (hlow : start + 20 ≤ node)
    (htop : node + 4 < wordModulus) (hring : Ring mem start start []) :
    ∃ mem', shmRecycle (store32 mem (candiateAt start) 0) start node = some mem' ∧
      Ring mem' start start [node + 4] ∧
      ∀ addr, start + 12 ≤ addr → addr < node + 4 → mem' addr = mem addr := by
  have hcleared := ring_store_candidate hring (by simp) 0
  obtain ⟨hring', huntouched⟩ := @ring_insert_single _ start start (node + 4) hcleared
    (Or.inr (by omega)) ⟨le_rfl, by omega⟩ ⟨by omega, htop⟩
  refine ⟨_, ?_, hring', ?_⟩
  · have hloop : listForEach RecycleState.mem start start recycleBody
        ⟨store32 mem (candiateAt start) 0, node, false⟩ =
          some (start, ⟨store32 mem (candiateAt start) 0, node, false⟩) :=
      listForEach_eq_walk (fun state : RecycleState => state.mem = store32 mem (candiateAt start) 0)
        (fun state hstate => hstate ▸ hcleared) (by simp) (by simp) rfl (by decide)
    rw [shmRecycle, if_neg (by omega), hloop]
    simp
  · intro addr hge hlt
    rw [huntouched addr, store_candidate_apply hge]
    rw [List.forall_mem_cons, List.forall_mem_singleton]
    omega

end

/-! ## A chunk without room for a block -/

/-- A chunk whose only block has at most four bytes. Its links are in the address
space. -/
structure TinyChunk where
  start : Nat
  room : Nat
  start_pos : 0 < start
  room_le : room ≤ 4
  node_le : start + 32 ≤ wordModulus

/-- The words that no request changes. -/
structure TinyWords (mem : Mem) (chunk : TinyChunk) : Prop where
  magic : load32 mem (magicFlagAt chunk.start) = constMagicFlag
  chunkSize : load32 mem (chunkSizeAt chunk.start) = chunk.room + 4
  header : load32 mem (chunk.start + 20) = chunk.room

/-- The block of a tiny chunk is the candidate, or it is on the free list. -/
inductive TinyInv (chunk : TinyChunk) (mem : Mem) : Prop
  | aside (hwords : TinyWords mem chunk) (hring : Ring mem chunk.start chunk.start [])
      (hcandiate : load32 mem (candiateAt chunk.start) = 20) : TinyInv chunk mem
  | listed (hwords : TinyWords mem chunk)
      (hring : Ring mem chunk.start chunk.start [chunk.start + 24])
      (hcandiate : load32 mem (candiateAt chunk.start) = 0) : TinyInv chunk mem

section

variable {mem mem' : Mem} {chunk : TinyChunk} {size : Nat}

theorem TinyInv.words (hinv : TinyInv chunk mem) : TinyWords mem chunk := by
  cases hinv with
  | aside hwords => exact hwords
  | listed hwords => exact hwords

/-- The words stay when only links and the candidate change. -/
theorem TinyWords.of_same (hwords : TinyWords mem chunk)
    (hsame : ∀ addr, chunk.start + 12 ≤ addr → addr < chunk.start + 24 → mem' addr = mem addr) :
    TinyWords mem' chunk := by
  have hword : ∀ n, 12 ≤ n → n ≤ 20 →
      load32 mem' (chunk.start + n) = load32 mem (chunk.start + n) := by
    intro n hlow hhigh
    refine load32_congr fun addr haddrLow haddrHigh => hsame addr ?_ ?_
    · omega
    · omega
  exact ⟨(hword 12 (by omega) (by omega)).trans hwords.magic,
    (hword 16 (by omega) (by omega)).trans hwords.chunkSize,
    (hword 20 (by omega) (by omega)).trans hwords.header⟩

/-- `shm_harvest` sets the block aside, unless it has no room at all. -/
theorem shmHarvest_tiny (hwords : TinyWords mem chunk)
    (hring : Ring mem chunk.start chunk.start [chunk.start + 24]) :
    ∃ mem', shmHarvest mem chunk.start = some mem' ∧ TinyInv chunk mem' := by
  have hnode := chunk.node_le
  obtain ⟨mem', hharvest, hsame, haside, hlisted⟩ :=
    shmHarvest_single chunk.start_pos le_rfl (by omega) hring
  have hwords' : TinyWords mem' chunk := hwords.of_same hsame
  rw [hwords.header] at haside hlisted
  refine ⟨mem', hharvest, ?_⟩
  rcases Nat.eq_zero_or_pos chunk.room with hroom | hroom
  · obtain ⟨hring', hcandiate⟩ := hlisted hroom
    exact .listed hwords' hring' hcandiate
  · obtain ⟨hring', hcandiate⟩ := haside hroom
    exact .aside hwords' hring' (hcandiate.trans (Nat.add_sub_cancel_left _ _))

/-- The block is too small for a request. -/
theorem shmMallocLoop_tiny (hinv : TinyInv chunk mem) (hsize : 4 < size) :
    shmMallocLoop chunk.start size 0 mem = some (0, mem) := by
  have hnode := chunk.node_le
  have hroom := chunk.room_le
  rw [shmMallocLoop.eq_def]
  dsimp only
  cases hinv with
  | aside hwords hring hcandiate =>
      have hat : offsetNode chunk.start 20 = chunk.start + 20 := by
        rw [offsetNode, Nat.mod_eq_of_lt (by omega)]
      rw [hcandiate, if_neg (by omega), hat, hwords.header, if_neg (by omega)]
  | listed hwords hring hcandiate => rw [if_pos hcandiate]

/-- `shm_malloc` of a tiny chunk serves no request. -/
theorem shmMalloc_tiny (hinv : TinyInv chunk mem) (hsize : 4 < size) :
    ∃ mem', shmMalloc mem chunk.start size = some (0, mem') ∧ TinyInv chunk mem' := by
  have hnode := chunk.node_le
  have hpos := chunk.start_pos
  have hroom := chunk.room_le
  have hwords := hinv.words
  have hhandle : (badHandle mem chunk.start || decide (size = 0)) = false := by
    simp only [badHandle, hwords.magic, hwords.chunkSize, ne_eq, not_true, decide_false,
      Bool.or_false, Bool.or_eq_false_iff, decide_eq_false_iff_not]
    omega
  rw [shmMalloc, hhandle, if_neg Bool.false_ne_true]
  cases hinv with
  | listed hwords hring hcandiate =>
      obtain ⟨mem', hharvest, hinv'⟩ := shmHarvest_tiny hwords hring
      rw [if_pos hcandiate, hharvest, Option.bind_some]
      exact ⟨mem', shmMallocLoop_tiny hinv' hsize, hinv'⟩
  | aside hwords hring hcandiate =>
      -- The candidate is too small, so it is recycled and harvested again.
      obtain ⟨recycled, hrecycle, hring', hsame⟩ :=
        shmRecycle_single hpos (le_refl (chunk.start + 20))
        (by omega) hring
      obtain ⟨mem', hharvest, hinv'⟩ := shmHarvest_tiny (hwords.of_same hsame) hring'
      have hat : offsetNode chunk.start 20 = chunk.start + 20 := by
        rw [offsetNode, Nat.mod_eq_of_lt (by omega)]
      refine ⟨mem', ?_, hinv'⟩
      rw [if_neg (by omega), shmMallocLoop.eq_def]
      dsimp only
      rw [hcandiate, if_neg (by omega), hat, hwords.header, if_neg (by omega), hrecycle,
        Option.bind_some, hharvest, Option.bind_some]
      exact shmMallocLoop_tiny hinv' hsize

/-- Nobody owns a block of a tiny chunk. -/
theorem TinyInv.counts {state : RefState} (hinv : TinyInv chunk state.mem) (hlive : state.live = [])
    {call : RefCall} (howned : Owned state call) :
    Counts chunk.start state call ∧
      ∀ next, refStep chunk.start state call = some next → TinyInv chunk next.mem ∧
        next.live = [] := by
  obtain ⟨mem, live⟩ := state
  obtain rfl : live = [] := hlive
  obtain ⟨hrequest, htarget, hwrites⟩ := howned
  cases call with
  | malloc size =>
      obtain ⟨mem', hcall, hinv'⟩ := shmMalloc_tiny hinv (hrequest size rfl).1
      have hstep : refStep chunk.start ⟨mem, []⟩ (.malloc size) = some ⟨mem', []⟩ := by
        simp [refStep, hcall]
      rw [Counts, hstep]
      refine ⟨⟨rfl, fun next hnext => ?_⟩, fun next hnext => ?_⟩
      · obtain rfl := Option.some.inj hnext
        simp
      · obtain rfl := Option.some.inj hnext
        exact ⟨hinv', rfl⟩
  | addReference unit =>
      obtain ⟨tally, htally, -⟩ := htarget unit rfl
      cases htally
  | free unit =>
      obtain ⟨tally, htally, -⟩ := htarget unit rfl
      cases htally
  | write addr byte =>
      obtain ⟨tally, htally, -⟩ := hwrites addr rfl
      cases htally

end

/-! ## The start -/

/-- The number of bytes from the handle to the end of the chunk. -/
def usable (memStart chunkSize : Nat) : Nat := memStart + chunkSize - align4Bytes memStart

section

variable {mem : Mem} {memStart chunkSize : Nat}

/-- What `init_shm_allocator` makes of a chunk that it does not refuse. -/
theorem accepted_reads (hspace : memStart + chunkSize ≤ wordModulus)
    (haccepted : (initShmAllocator mem memStart chunkSize).1 ≠ 0) :
    ¬ (memStart = 0 ∨ chunkSize ≤ efftsizeToPoolsize 0 + sizeofShmAlloc) ∧
      memStart + chunkSize < wordModulus ∧ memStart ≤ align4Bytes memStart ∧
      4 ∣ align4Bytes memStart ∧ align4Bytes memStart + 20 < memStart + chunkSize := by
  have htested : ¬ (memStart = 0 ∨ chunkSize ≤ efftsizeToPoolsize 0 + sizeofShmAlloc) := by
    intro hrefused
    apply haccepted
    rw [initShmAllocator, if_pos hrefused]
  have hbounds : memStart ≠ 0 ∧ 24 < chunkSize := by
    rw [not_or, not_le] at htested
    exact htested
  have htop : memStart + chunkSize < wordModulus := by
    rcases Nat.lt_or_eq_of_le hspace with hlt | htop
    · exact hlt
    · exfalso
      apply haccepted
      have hzero : addrPlus memStart chunkSize = 0 := by rw [addrPlus, htop, Nat.mod_self]
      simp only [initShmAllocator, hzero, ge_iff_le, Nat.zero_le, if_true, ite_self]
  have halign : align4Bytes memStart = (memStart + 3) / 4 * 4 := align4Bytes_eq (by omega)
  refine ⟨htested, htop, by omega, by omega, ?_⟩
  by_contra hfull
  apply haccepted
  have hend : addrPlus memStart chunkSize = memStart + chunkSize := by
    rw [addrPlus, Nat.mod_eq_of_lt htop]
  have hnode : addrPlus (align4Bytes memStart) sizeofShmAlloc = align4Bytes memStart + 20 := by
    rw [addrPlus, sizeofShmAlloc, Nat.mod_eq_of_lt (by omega)]
  simp only [initShmAllocator]
  rw [if_neg htested, hend, hnode, if_pos (by omega)]

/-- The handle and the memory that `init_shm_allocator` leaves, for any chunk. -/
theorem initShmAllocator_eq (hspace : memStart + chunkSize ≤ wordModulus)
    (haccepted : (initShmAllocator mem memStart chunkSize).1 ≠ 0)
    (hfresh : load32 mem (magicFlagAt (align4Bytes memStart)) ≠ constMagicFlag) :
    initShmAllocator mem memStart chunkSize = (align4Bytes memStart,
      store32 (store32 (store32 (store32 (store32 (store32 mem (chunkSizeAt (align4Bytes memStart))
        (usable memStart chunkSize - 20)) (align4Bytes memStart + 4) 0) (align4Bytes memStart) 0)
        (align4Bytes memStart + 20) (poolsizeToEfftsize (usable memStart chunkSize - 20)))
        (candiateAt (align4Bytes memStart)) 20) (magicFlagAt (align4Bytes memStart))
        constMagicFlag) := by
  obtain ⟨htested, htop, hge, _, hnodeLt⟩ := accepted_reads hspace haccepted
  have hrest : memStart + chunkSize - (align4Bytes memStart + 20) =
    usable memStart chunkSize - 20 := by
    rw [usable]
    omega
  rw [initShmAllocator_writes htested rfl htop hnodeLt hfresh, hrest]

/-- A chunk that ends at a multiple of four and has room for a block. -/
theorem refInit_reach (hspace : memStart + chunkSize ≤ wordModulus)
    (haccepted : (initShmAllocator mem memStart chunkSize).1 ≠ 0)
    (hfresh : load32 mem (magicFlagAt (align4Bytes memStart)) ≠ constMagicFlag)
    (hend : 4 ∣ memStart + chunkSize) (hroom : 32 ≤ usable memStart chunkSize) :
    ∃ chunk : ShmChunk, (initShmAllocator mem memStart chunkSize).1 = chunk.start ∧
      RefReach chunk (refInit mem memStart chunkSize) := by
  obtain ⟨htested, htop, hge, hdvd, hnodeLt⟩ := accepted_reads hspace haccepted
  have hbounds : memStart ≠ 0 ∧ 24 < chunkSize := by
    rw [not_or, not_le] at htested
    exact htested
  have husable : usable memStart chunkSize = memStart + chunkSize - align4Bytes memStart := rfl
  let chunk : ShmChunk :=
    ⟨align4Bytes memStart, usable memStart chunkSize, by omega, hdvd, by omega, by omega, by omega⟩
  have hinit := initShmAllocator_eq hspace haccepted hfresh
  have hsize : poolsizeToEfftsize (usable memStart chunkSize - 20) =
    usable memStart chunkSize - 24 := by
    rw [poolsizeToEfftsize, subWord_eq (by omega) (by omega)]
    omega
  rw [hsize] at hinit
  refine ⟨chunk, by rw [hinit], [firstBlock chunk], ?_, ?_⟩
  · rw [refInit, hinit]
    exact freshChunk_inv mem chunk (show 8 ≤ usable memStart chunkSize - 24 by omega)
  · exact ⟨by simp [refInit], by simp [refInit]⟩

/-- A chunk without room for a block. -/
theorem refInit_tiny (hspace : memStart + chunkSize ≤ wordModulus)
    (haccepted : (initShmAllocator mem memStart chunkSize).1 ≠ 0)
    (hfresh : load32 mem (magicFlagAt (align4Bytes memStart)) ≠ constMagicFlag)
    (hnode : align4Bytes memStart + 32 ≤ wordModulus) (hlow : 24 ≤ usable memStart chunkSize)
    (hhigh : usable memStart chunkSize ≤ 28) :
    ∃ chunk : TinyChunk, (initShmAllocator mem memStart chunkSize).1 = chunk.start ∧
      TinyInv chunk (refInit mem memStart chunkSize).mem := by
  obtain ⟨htested, htop, hge, hdvd, hnodeLt⟩ := accepted_reads hspace haccepted
  have hbounds : memStart ≠ 0 ∧ 24 < chunkSize := by
    rw [not_or, not_le] at htested
    exact htested
  let chunk : TinyChunk :=
    ⟨align4Bytes memStart, usable memStart chunkSize - 24, by omega, by omega, hnode⟩
  have hinit := initShmAllocator_eq hspace haccepted hfresh
  have hsize : poolsizeToEfftsize (usable memStart chunkSize - 20) =
    usable memStart chunkSize - 24 := by
    rw [poolsizeToEfftsize, subWord_eq (by omega) (by omega)]
    omega
  rw [hsize] at hinit
  have hvalue : ∀ n, n ≤ 28 → n % wordModulus = n := fun n hn => Nat.mod_eq_of_lt (by omega)
  refine ⟨chunk, by rw [hinit], ?_⟩
  rw [refInit, hinit]
  refine .aside ⟨?_, ?_, ?_⟩ ⟨⟨?_, ?_⟩, trivial⟩ ?_
  all_goals simp only [chunk, magicFlagAt, chunkSizeAt, candiateAt, nextOf, prevOf]
  all_goals simp (disch := (simp only [Apart]; omega)) only [load32_store32_same,
    load32_store32_of_apart]
  · rfl
  · rw [hvalue _ (by omega)]
    omega
  · exact hvalue _ (by omega)
  · rw [offsetNode, hvalue 0 (by omega), Nat.add_zero, Nat.mod_eq_of_lt (by omega)]
  · rw [offsetNode, hvalue 0 (by omega), Nat.add_zero, Nat.mod_eq_of_lt (by omega)]
  · exact hvalue 20 (by omega)

end

/-! ## Whole runs -/

/-- Every size that the allocator computes is a multiple of four, or there is too
little room for a request of more than four bytes. -/
def SizesCount (memStart chunkSize : Nat) : Prop :=
  4 ∣ memStart + chunkSize ∨ 24 ≤ usable memStart chunkSize ∧ usable memStart chunkSize ≤ 28

/-- On a fresh chunk with such sizes whose first block is in the address space,
every call counts as it should. -/
theorem shm_references_counted {mem : Mem} {memStart chunkSize : Nat}
    (hspace : memStart + chunkSize ≤ wordModulus)
    (haccepted : (initShmAllocator mem memStart chunkSize).1 ≠ 0)
    (hfresh : load32 mem (magicFlagAt (align4Bytes memStart)) ≠ constMagicFlag)
    (hsizes : SizesCount memStart chunkSize)
    (hnode : align4Bytes memStart + sizeofShmAlloc + sizeofFreeShmPool ≤ wordModulus)
    {calls : List RefCall}
    (hcalls : Promised (refStep (initShmAllocator mem memStart chunkSize).1) Owned
      (refInit mem memStart chunkSize) calls) :
    Promised (refStep (initShmAllocator mem memStart chunkSize).1)
      (Counts (initShmAllocator mem memStart chunkSize).1)
      (refInit mem memStart chunkSize) calls := by
  obtain ⟨_, htop, hge, hdvd, hnodeLt⟩ := accepted_reads hspace haccepted
  have husable : usable memStart chunkSize = memStart + chunkSize - align4Bytes memStart := rfl
  by_cases hroom : 32 ≤ usable memStart chunkSize
  · obtain ⟨chunk, hhandle, hreach⟩ := refInit_reach hspace haccepted hfresh
      (hsizes.resolve_right (by omega)) hroom
    rw [hhandle] at hcalls ⊢
    refine Promised.imp_invariant (RefReach chunk)
      (fun _ _ hreach howned => hreach.counts howned) ?_
      hreach hcalls
    intro state call next hreach howned hstep
    obtain ⟨other, hother, hreach', -⟩ := hreach.step howned
    obtain rfl := Option.some.inj (hother.symm.trans hstep)
    exact hreach'
  · have hsmall : 24 ≤ usable memStart chunkSize ∧ usable memStart chunkSize ≤ 28 := by
      rcases hsizes with haligned | hsmall
      · omega
      · exact hsmall
    obtain ⟨chunk, hhandle, hinv⟩ := refInit_tiny hspace haccepted hfresh hnode hsmall.1 hsmall.2
    rw [hhandle] at hcalls ⊢
    exact Promised.imp_invariant (fun state => TinyInv chunk state.mem ∧ state.live = [])
      (fun _ _ hinv howned => (hinv.1.counts hinv.2 howned).1)
      (fun _ _ next hinv howned hstep => (hinv.1.counts hinv.2 howned).2 next hstep)
      ⟨hinv, rfl⟩ hcalls

/-- Two blocks of a chunk that starts at 65 and ends at 200. The first gets three
references more, and a fourth is refused. -/
def sharedFully : List RefCall :=
  [.malloc 9, .malloc 24, .addReference 92, .addReference 92, .addReference 92, .addReference 92,
    .free 108, .free 92, .write 93 7, .free 92, .free 92, .free 92, .malloc 5]

theorem shm_references_counted_sharedFully :
    Promised (refStep (initShmAllocator (fun _ => 0) 65 135).1)
      (Counts (initShmAllocator (fun _ => 0) 65 135).1) (refInit (fun _ => 0) 65 135) sharedFully :=
  shm_references_counted (by decide) (by decide) (by decide) (Or.inl (by decide)) (by decide)
    (by decide +kernel)

/-- A chunk of 101 bytes whose block of 77 bytes is handed out as a whole: the call
that frees it does not give it back, and only two references can be added. -/
theorem shm_reference_miscounted :
    (initShmAllocator (fun _ => 0) 64 101).1 = 64 ∧
      (Promised (refStep 64) Owned (refInit (fun _ => 0) 64 101) [.malloc 77, .free 88] ∧
        ¬ Promised (refStep 64) (Counts 64) (refInit (fun _ => 0) 64 101) [.malloc 77, .free 88]) ∧
      Promised (refStep 64) Owned (refInit (fun _ => 0) 64 101)
          [.malloc 77, .addReference 88, .addReference 88, .addReference 88] ∧
        ¬ Promised (refStep 64) (Counts 64) (refInit (fun _ => 0) 64 101)
          [.malloc 77, .addReference 88, .addReference 88, .addReference 88] := by
  decide +kernel

end McuProxy.Ckits
