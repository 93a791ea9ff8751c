/-
# A chunk before anything is freed

`init_shm_allocator` tests the size of a chunk against its unaligned start and
the room for its header against the aligned one. Neither test counts the bytes
lost to alignment together with the four bytes of the first block's own header.
For a few sizes just above the limit the first block's size is therefore a
difference that wraps, and the block reaches around the address space.

Everywhere else the free memory of a chunk from which nothing has been freed is
one block, the candidate, which ends where the chunk ends. A request is cut from
its front, and a request that is too large puts it on the free list and takes it
off again.
-/

import McuProxy.Ckits.ShmRefs

namespace McuProxy.Ckits

open McuProxy.Memory McuProxy.Math

/-- Where the candidate of a chunk is. -/
def candidateNode (mem : Mem) (handle : Nat) : Nat :=
  offsetNode handle (load32 mem (candiateAt handle))

/-- What owners do before anything is freed: they ask for memory, add references to
blocks they own, and write inside the memory they asked for. -/
def BeforeFree (state : RefState) : RefCall → Prop
  | .malloc size => size < wordModulus
  | .addReference unit => ∃ tally ∈ state.live, tally.unit = unit
  | .write addr _ => ∃ tally ∈ state.live, tally.unit ≤ addr ∧ addr < tally.unit + tally.size
  | .free _ => False

instance (state : RefState) : (call : RefCall) → Decidable (BeforeFree state call)
  | .malloc size => inferInstanceAs (Decidable (size < wordModulus))
  | .addReference unit => inferInstanceAs (Decidable (∃ tally ∈ state.live, tally.unit = unit))
  | .write addr _ => inferInstanceAs (Decidable
      (∃ tally ∈ state.live, tally.unit ≤ addr ∧ addr < tally.unit + tally.size))
  | .free _ => inferInstanceAs (Decidable False)

/-- The first block ends where the chunk ends, and nothing that is handed out before
the first free reaches beyond. -/
structure NeverFabricates (mem : Mem) (memStart chunkSize : Nat) : Prop where
  recorded : let fresh := initShmAllocator mem memStart chunkSize
    candidateNode fresh.2 fresh.1 + 4 + load32 fresh.2 (candidateNode fresh.2 fresh.1) =
      memStart + chunkSize
  served : ∀ calls, Promised (refStep (initShmAllocator mem memStart chunkSize).1) BeforeFree
      (refInit mem memStart chunkSize) calls →
    ∃ final, runMachine (refStep (initShmAllocator mem memStart chunkSize).1)
        (refInit mem memStart chunkSize) calls = some final ∧
      ∀ tally ∈ final.live, tally.unit + tally.size ≤ memStart + chunkSize

/-- A chunk with room for its header and that of a block. -/
structure ShmRegion where
  start : Nat
  stop : Nat
  start_pos : 0 < start
  room : start + 24 ≤ stop
  top_lt : stop < wordModulus

/-- The words that the calls on a chunk test. -/
structure ShmHeader (mem : Mem) (start : Nat) : Prop where
  magic : load32 mem (magicFlagAt start) = constMagicFlag
  chunkSize : load32 mem (chunkSizeAt start) ≠ 0

/-- The free memory of the chunk is its end, from `floor` on: a block that is the
candidate, nothing, or an empty block on the free list. -/
inductive FreeEnd (region : ShmRegion) (mem : Mem) : Nat → Prop
  | candidate {node : Nat} (hlow : region.start + 20 ≤ node) (hhigh : node + 4 ≤ region.stop)
      (hring : Ring mem region.start region.start [])
      (hcandiate : load32 mem (candiateAt region.start) = node - region.start)
      (hsize : load32 mem node = region.stop - (node + 4)) : FreeEnd region mem node
  | nothing (hring : Ring mem region.start region.start [])
      (hcandiate : load32 mem (candiateAt region.start) = 0) : FreeEnd region mem region.stop
  | listed {node : Nat} (hlow : region.start + 20 ≤ node) (hhigh : node + 4 = region.stop)
      (hring : Ring mem region.start region.start [node + 4])
      (hcandiate : load32 mem (candiateAt region.start) = 0)
      (hsize : load32 mem node = 0) : FreeEnd region mem node

section

variable {mem mem' : Mem} {region : ShmRegion} {node floor size : Nat}

theorem ShmHeader.of_same (hheader : ShmHeader mem region.start)
    (hsame : SameOn mem mem' (region.start + 12) (region.start + 20)) :
    ShmHeader mem' region.start := by
  constructor
  · rw [magicFlagAt, load32_congr (hsame.mono le_rfl (by omega))]
    exact hheader.magic
  · rw [chunkSizeAt, load32_congr (hsame.mono (by omega) (by omega))]
    exact hheader.chunkSize

theorem ShmHeader.store_candidate (hheader : ShmHeader mem region.start) (value : Nat) :
    ShmHeader (store32 mem (candiateAt region.start) value) region.start :=
  hheader.of_same fun _ hge _ => store_candidate_apply hge

/-- Memory that is handed out is not read. -/
theorem FreeEnd.of_same (hend : FreeEnd region mem floor)
    (hheader : SameOn mem mem' region.start (region.start + 12))
    (hfree : ∀ addr, floor ≤ addr → mem' addr = mem addr) : FreeEnd region mem' floor := by
  have hcand : load32 mem' (candiateAt region.start) = load32 mem (candiateAt region.start) :=
    load32_congr (hheader.mono (by simp only [candiateAt]; omega)
      (by simp only [candiateAt]; omega))
  have hhead : SameOn mem mem' region.start (region.start + 8) := hheader.mono le_rfl (by omega)
  cases hend with
  | candidate hlow hhigh hring hcandiate hsize =>
      refine .candidate hlow hhigh (ring_congr (by simpa using hhead) hring)
        (hcand.trans hcandiate) ?_
      rw [load32_congr fun addr haddr _ => hfree addr haddr]
      exact hsize
  | nothing hring hcandiate =>
      exact .nothing (ring_congr (by simpa using hhead) hring) (hcand.trans hcandiate)
  | listed hlow hhigh hring hcandiate hsize =>
      refine .listed hlow hhigh (ring_congr ?_ hring) (hcand.trans hcandiate) ?_
      · rw [List.forall_mem_cons, List.forall_mem_singleton]
        exact ⟨hhead, fun addr haddr _ => hfree addr (by omega)⟩
      · rw [load32_congr fun addr haddr _ => hfree addr haddr]
        exact hsize

theorem FreeEnd.floor_le (hend : FreeEnd region mem floor) : floor ≤ region.stop := by
  cases hend with
  | candidate hlow hhigh => omega
  | nothing => exact le_rfl
  | listed hlow hhigh => omega

/-- The candidate that is too small for a request is put on the free list and taken
off again, unless it is empty. -/
theorem recycle_harvest (hlow : region.start + 20 ≤ node) (hhigh : node + 4 ≤ region.stop)
    (hring : Ring mem region.start region.start []) (hheader : ShmHeader mem region.start)
    (hsize : load32 mem node = region.stop - (node + 4)) :
    ∃ recycled mem', shmRecycle (store32 mem (candiateAt region.start) 0) region.start node =
        some recycled ∧ shmHarvest recycled region.start = some mem' ∧
      ShmHeader mem' region.start ∧ FreeEnd region mem' node := by
  have hstart := region.start_pos
  have htop := region.top_lt
  obtain ⟨recycled, hrecycle, hring', hsame⟩ := shmRecycle_single hstart hlow (by omega) hring
  have hsize' : load32 recycled node = region.stop - (node + 4) := by
    rw [load32_congr fun addr hge hlt => hsame addr (by omega) hlt]
    exact hsize
  obtain ⟨mem', hharvest, hsame', haside, hlisted⟩ :=
    shmHarvest_single hstart hlow (by omega) hring'
  have hsize'' : load32 mem' node = region.stop - (node + 4) := by
    rw [load32_congr fun addr hge hlt => hsame' addr (by omega) hlt]
    exact hsize'
  have hheader' : ShmHeader mem' region.start := by
    apply hheader.of_same
    intro addr hge hlt
    rw [hsame' addr hge (by omega), hsame addr hge (by omega)]
  rw [hsize'] at haside hlisted
  refine ⟨recycled, mem', hrecycle, hharvest, hheader', ?_⟩
  rcases Nat.eq_zero_or_pos (region.stop - (node + 4)) with hempty | hroom
  · obtain ⟨hring'', hcandiate⟩ := hlisted hempty
    exact .listed hlow (by omega) hring'' hcandiate (hsize''.trans hempty)
  · obtain ⟨hring'', hcandiate⟩ := haside hroom
    exact .candidate hlow hhigh hring'' hcandiate hsize''

/-- The outcome of a request: free memory is still the end of the chunk, which does
not grow, and what was handed out lies before it. -/
structure EndServed (region : ShmRegion) (floor size : Nat) (result : Nat × Mem) : Prop where
  header : ShmHeader result.2 region.start
  freeEnd : ∃ floor', FreeEnd region result.2 floor' ∧ floor ≤ floor' ∧
    (result.1 ≠ 0 → region.start + 24 ≤ result.1 ∧ result.1 + size ≤ floor')

theorem EndServed.refused (hheader : ShmHeader mem region.start) (hend : FreeEnd region mem floor)
    (size : Nat) : EndServed region floor size (0, mem) :=
  ⟨hheader, floor, hend, le_rfl, fun hserved => absurd rfl hserved⟩

/-- The candidate is read where it is. -/
theorem candidate_read (hlow : region.start + 20 ≤ node) (hhigh : node + 4 ≤ region.stop)
    (hcandiate : load32 mem (candiateAt region.start) = node - region.start) :
    offsetNode region.start (load32 mem (candiateAt region.start)) = node ∧
      load32 mem (candiateAt region.start) ≠ 0 ∧ addrPlus node 4 = node + 4 := by
  have htop := region.top_lt
  rw [hcandiate, offsetNode, addrPlus, Nat.mod_eq_of_lt (by omega), Nat.mod_eq_of_lt (by omega)]
  omega

/-- The request is cut from the front of the candidate. -/
theorem served_cut (hlow : region.start + 20 ≤ node) (hring : Ring mem region.start region.start [])
    (hheader : ShmHeader mem region.start) {cur : Nat} (hcur : node + 4 + size ≤ cur)
    (hend : cur + 4 ≤ region.stop) (rounded : Nat) :
    EndServed region node size (node + 4,
      store32 (store32 (store32 mem cur (region.stop - (cur + 4))) node rounded)
        (candiateAt region.start) (cur - region.start)) := by
  have htop := region.top_lt
  have hsame : ∀ addr, addr < node →
      store32 (store32 mem cur (region.stop - (cur + 4))) node rounded addr = mem addr := by
    intro addr hlt
    rw [store32_apply (Or.inl hlt), store32_apply (by omega)]
  have hhead : ∀ obj ∈ [region.start], SameOn mem
      (store32 (store32 mem cur (region.stop - (cur + 4))) node rounded) obj (obj + 8) := by
    rw [List.forall_mem_singleton]
    exact fun addr _ hlt => hsame addr (by omega)
  have hcandiate : load32
    (store32 (store32 (store32 mem cur (region.stop - (cur + 4))) node rounded)
      (candiateAt region.start) (cur - region.start)) (candiateAt region.start) =
        cur - region.start := by
    rw [load32_store32_same, Nat.mod_eq_of_lt (by omega)]
  have hsize : load32 (store32 (store32 (store32 mem cur (region.stop - (cur + 4))) node rounded)
      (candiateAt region.start) (cur - region.start)) cur = region.stop - (cur + 4) := by
    rw [load32_store32_of_apart (by simp only [Apart, candiateAt]; omega),
      load32_store32_of_apart (by simp only [Apart]; omega), load32_store32_same,
      Nat.mod_eq_of_lt (by omega)]
  constructor
  · apply ShmHeader.store_candidate
    exact hheader.of_same fun addr _ hlt => hsame addr (by omega)
  · have hring' := ring_store_candidate (ring_congr hhead hring) (by simp) (cur - region.start)
    exact ⟨cur, .candidate (by omega) hend hring' hcandiate hsize, by omega, fun _ => by omega⟩

/-- The candidate is handed out as a whole. -/
theorem served_whole (hlow : region.start + 20 ≤ node) (hhigh : node + 4 + size ≤ region.stop)
    (hring : Ring mem region.start region.start []) (hheader : ShmHeader mem region.start) :
    EndServed region node size (node + 4, store32 mem (candiateAt region.start) 0) := by
  have hcandiate : load32 (store32 mem (candiateAt region.start) 0)
    (candiateAt region.start) = 0 := by
    rw [load32_store32_same]
    rfl
  constructor
  · exact hheader.store_candidate 0
  · have hring' := ring_store_candidate hring (by simp) 0
    exact ⟨region.stop, .nothing hring' hcandiate, by omega, fun _ => by omega⟩

/-- The candidate is large enough. -/
theorem shmMallocLoop_end (hlow : region.start + 20 ≤ node) (hhigh : node + 4 ≤ region.stop)
    (hring : Ring mem region.start region.start []) (hheader : ShmHeader mem region.start)
    (hcandiate : load32 mem (candiateAt region.start) = node - region.start)
    (hsize : load32 mem node = region.stop - (node + 4)) (hpos : 0 < size)
    (hfits : size ≤ region.stop - (node + 4)) (health : Nat) :
    ∃ result, shmMallocLoop region.start size health mem = some result ∧
      EndServed region node size result := by
  have htop := region.top_lt
  obtain ⟨hat, hset, hunit⟩ := candidate_read hlow hhigh hcandiate
  have halign : align4Bytes size = (size + 3) / 4 * 4 := align4Bytes_eq (by omega)
  have hsum : (align4Bytes size + sizeofFreeShmPool) % wordModulus = align4Bytes size + 12 := by
    rw [sizeofFreeShmPool, Nat.mod_eq_of_lt (by omega)]
  rw [shmMallocLoop.eq_def]
  dsimp only
  rw [if_neg hset, hat, if_pos (by omega), hunit, hsum]
  by_cases hcut : load32 mem node > align4Bytes size + 12
  · rw [if_pos hcut]
    rw [hsize] at hcut
    have hcur : addrPlus (node + 4) (align4Bytes size) = node + 4 + align4Bytes size := by
      rw [addrPlus, Nat.mod_eq_of_lt (by omega)]
    have hrest : poolsizeToEfftsize (subWord (load32 mem node) (align4Bytes size)) =
        region.stop - (node + 4 + align4Bytes size + 4) := by
      rw [hsize, subWord_eq (by omega) (by omega), poolsizeToEfftsize,
        subWord_eq (by omega) (by omega)]
      omega
    have hoffset : offsetPointer (node + 4 + align4Bytes size) region.start =
        node + 4 + align4Bytes size - region.start := by
      rw [offsetPointer, subWord_eq (by omega) (by omega)]
    rw [hcur, hrest, hoffset]
    exact ⟨_, rfl, served_cut hlow hring hheader (by omega) (by omega) (align4Bytes size)⟩
  · rw [if_neg hcut]
    exact ⟨_, rfl, served_whole hlow (by omega) hring hheader⟩

/-- The last turn of the loop refuses a request that does not fit. -/
theorem shmMallocLoop_refuses (hend : FreeEnd region mem floor)
    (hshort : region.stop - (floor + 4) < size) :
    shmMallocLoop region.start size 0 mem = some (0, mem) := by
  rw [shmMallocLoop.eq_def]
  dsimp only
  cases hend with
  | candidate hlow hhigh hring hcandiate hsize =>
      obtain ⟨hat, hset, -⟩ := candidate_read hlow hhigh hcandiate
      rw [if_neg hset, hat, hsize, if_neg (by omega)]
  | nothing hring hcandiate => rw [if_pos hcandiate]
  | listed hlow hhigh hring hcandiate hsize => rw [if_pos hcandiate]

theorem badHandle_eq_false_of_header (hheader : ShmHeader mem region.start) :
    badHandle mem region.start = false := by
  have hstart := region.start_pos
  simp only [badHandle, hheader.magic, ne_eq, not_true, decide_false, Bool.or_false,
    Bool.or_eq_false_iff, decide_eq_false_iff_not]
  exact ⟨by omega, hheader.chunkSize⟩

/-- `shm_malloc` before anything has been freed. -/
theorem shmMalloc_end (hheader : ShmHeader mem region.start) (hend : FreeEnd region mem floor)
    (size : Nat) :
    ∃ result, shmMalloc mem region.start size = some result ∧
      EndServed region floor size result := by
  by_cases hzero : size = 0
  · exact ⟨(0, mem), by simp [shmMalloc, hzero], .refused hheader hend size⟩
  rw [shmMalloc, badHandle_eq_false_of_header hheader, Bool.false_or, decide_eq_false hzero,
    if_neg Bool.false_ne_true]
  cases hend with
  | candidate hlow hhigh hring hcandiate hsize =>
      obtain ⟨hat, hset, -⟩ := candidate_read hlow hhigh hcandiate
      rw [if_neg hset]
      by_cases hfits : size ≤ region.stop - (floor + 4)
      · exact shmMallocLoop_end hlow hhigh hring hheader hcandiate hsize (Nat.pos_of_ne_zero hzero)
          hfits 1
      · obtain ⟨recycled, mem', hrecycle, hharvest, hheader', hend'⟩ :=
          recycle_harvest hlow hhigh hring hheader hsize
        refine ⟨(0, mem'), ?_, .refused hheader' hend' size⟩
        rw [shmMallocLoop.eq_def]
        dsimp only
        rw [if_neg hset, hat, hsize, if_neg (by omega), hrecycle, Option.bind_some, hharvest,
          Option.bind_some]
        exact shmMallocLoop_refuses hend' (by omega)
  | nothing hring hcandiate =>
      have hend' : FreeEnd region (store32 mem (candiateAt region.start) 0) region.stop := by
        refine .nothing (ring_store_candidate hring (by simp) 0) ?_
        rw [load32_store32_same]
        rfl
      refine ⟨_, ?_, .refused (hheader.store_candidate 0) hend' size⟩
      rw [if_pos hcandiate, shmHarvest_nil hring, Option.bind_some]
      exact shmMallocLoop_refuses hend' (by omega)
  | listed hlow hhigh hring hcandiate hsize =>
      have htop := region.top_lt
      obtain ⟨mem', hharvest, hsame, -, hlisted⟩ :=
        shmHarvest_single region.start_pos hlow (by omega) hring
      obtain ⟨hring', hcandiate'⟩ := hlisted hsize
      have hend' : FreeEnd region mem' floor := by
        apply FreeEnd.listed hlow hhigh hring' hcandiate'
        rw [load32_congr fun addr hge hlt => hsame addr (by omega) hlt]
        exact hsize
      refine ⟨(0, mem'), ?_, .refused (hheader.of_same fun addr hge hlt => ?_) hend' size⟩
      · rw [if_pos hcandiate, hharvest, Option.bind_some]
        exact shmMallocLoop_refuses hend' (by omega)
      · exact hsame addr hge (by omega)

end

/-- What every state before the first free satisfies: the blocks that are owned lie
between the header and the free end. -/
structure FreshInv (region : ShmRegion) (state : RefState) : Prop where
  header : ShmHeader state.mem region.start
  freeEnd : ∃ floor, FreeEnd region state.mem floor ∧ ∀ tally ∈ state.live,
    region.start + 24 ≤ tally.unit ∧ tally.unit + tally.size ≤ floor

section

variable {region : ShmRegion} {state : RefState}

theorem FreshInv.within (hinv : FreshInv region state) :
    ∀ tally ∈ state.live, tally.unit + tally.size ≤ region.stop := by
  obtain ⟨-, floor, hend, hbelow⟩ := hinv
  intro tally htally
  exact (hbelow tally htally).2.trans hend.floor_le

/-- Bytes of owned blocks, and of the words before them, are not read. -/
theorem FreshInv.store (hinv : FreshInv region state) {mem' : Mem} {live' : List Tally}
    {tally : Tally} (htally : tally ∈ state.live)
    (hsame : ∀ addr, addr + 4 < tally.unit ∨ tally.unit + tally.size ≤ addr →
      mem' addr = state.mem addr)
    (hlive : ∀ other ∈ live', ∃ old ∈ state.live, other.unit = old.unit ∧ other.size = old.size) :
    FreshInv region ⟨mem', live'⟩ := by
  obtain ⟨hheader, floor, hend, hbelow⟩ := hinv
  obtain ⟨hlow, hhigh⟩ := hbelow tally htally
  refine ⟨hheader.of_same fun addr _ hlt => hsame addr (by omega), floor, hend.of_same ?_ ?_, ?_⟩
  · exact fun addr _ hlt => hsame addr (by omega)
  · exact fun addr hge => hsame addr (by omega)
  · intro other hother
    obtain ⟨old, hold, hunit, hsize⟩ := hlive other hother
    rw [hunit, hsize]
    exact hbelow old hold

theorem mem_retally_shared {live : List Tally} {unit : Nat} {other : Tally}
    (hother : other ∈ retally live unit Tally.shared) :
    ∃ old ∈ live, other.unit = old.unit ∧ other.size = old.size := by
  obtain ⟨old, hold, heq⟩ := List.mem_filterMap.mp hother
  refine ⟨old, hold, ?_⟩
  split at heq
  · obtain rfl := Option.some.inj heq
    exact ⟨rfl, rfl⟩
  · obtain rfl := Option.some.inj heq
    exact ⟨rfl, rfl⟩

/-- A reference changes at most the size word of its block. -/
theorem shmAddReference_mem (mem : Mem) (info unit : Nat) :
    (shmAddReference mem info unit).2 = mem ∨
      (shmAddReference mem info unit).2 = store32 mem (unit - 4) (load32 mem (unit - 4) + 1) := by
  by_cases hbad : badPointer mem info unit = true
  · left
    rw [shmAddReference, if_pos hbad]
  · rw [shmAddReference, if_neg hbad]
    by_cases hfull :
        ((load32 mem (unit - 4) &&& 0xFFFFFFFC) + 3) % wordModulus ≤ load32 mem (unit - 4)
    · left
      simp only [hfull, if_true]
    · right
      simp only [hfull, if_false]

/-- Every call before the first free comes to its end and keeps the invariant. -/
theorem FreshInv.step (hinv : FreshInv region state) {call : RefCall}
    (hcall : BeforeFree state call) :
    ∃ next, refStep region.start state call = some next ∧ FreshInv region next := by
  cases call with
  | malloc size =>
      obtain ⟨hheader, floor, hend, hbelow⟩ := hinv
      obtain ⟨⟨unit, mem⟩, hmalloc, hheader', floor', hend', hgrown, hserved⟩ :=
        shmMalloc_end hheader hend size
      have hold : ∀ tally ∈ state.live,
          region.start + 24 ≤ tally.unit ∧ tally.unit + tally.size ≤ floor' := fun tally htally =>
        ⟨(hbelow tally htally).1, (hbelow tally htally).2.trans hgrown⟩
      refine ⟨_, by rw [refStep, hmalloc, Option.map_some], hheader', floor', hend', ?_⟩
      intro tally htally
      by_cases hrefused : unit = 0
      · simp only [hrefused, if_true] at htally
        exact hold tally htally
      · simp only [hrefused, if_false] at htally
        rcases List.mem_cons.mp htally with rfl | hmem
        · exact hserved hrefused
        · exact hold tally hmem
  | addReference unit =>
      obtain ⟨tally, htally, rfl⟩ := hcall
      have hlow : 4 ≤ tally.unit := by
        obtain ⟨-, floor, -, hbelow⟩ := hinv
        have hunit := (hbelow tally htally).1
        omega
      have hstep : refStep region.start state (.addReference tally.unit) =
          some ⟨(shmAddReference state.mem region.start tally.unit).2,
            if (shmAddReference state.mem region.start tally.unit).1 = 0 then
              retally state.live tally.unit Tally.shared else state.live⟩ := by
        rw [refStep]
      refine ⟨_, hstep, hinv.store htally ?_ ?_⟩
      · intro addr haddr
        rcases shmAddReference_mem state.mem region.start tally.unit with hmem | hmem
        · rw [hmem]
        · rw [hmem, store32_apply (by omega)]
      · intro other hother
        split at hother
        · exact mem_retally_shared hother
        · exact ⟨other, hother, rfl, rfl⟩
  | free unit => exact absurd hcall (by simp [BeforeFree])
  | write addr byte =>
      obtain ⟨tally, htally, hlow, hhigh⟩ := hcall
      refine ⟨_, rfl, hinv.store htally ?_ fun other hother => ⟨other, hother, rfl, rfl⟩⟩
      intro other hother
      rw [store8, if_neg (by omega)]

end

section

variable {mem : Mem} {memStart chunkSize : Nat}

/-- The condition on the two arguments: behind the aligned header there is room for
the header of the first block. -/
def RoomForHeaders (memStart chunkSize : Nat) : Prop :=
  align4Bytes memStart + sizeofShmAlloc + efftsizeToPoolsize 0 ≤ memStart + chunkSize

instance (memStart chunkSize : Nat) : Decidable (RoomForHeaders memStart chunkSize) :=
  inferInstanceAs (Decidable (_ ≤ _))

/-- The words that `init_shm_allocator` leaves in a fresh chunk, for any sizes. -/
theorem fresh_words (hspace : memStart + chunkSize ≤ wordModulus)
    (haccepted : (initShmAllocator mem memStart chunkSize).1 ≠ 0)
    (hfresh : load32 mem (magicFlagAt (align4Bytes memStart)) ≠ constMagicFlag) :
    let fresh := initShmAllocator mem memStart chunkSize
    fresh.1 = align4Bytes memStart ∧ ShmHeader fresh.2 (align4Bytes memStart) ∧
      Ring fresh.2 (align4Bytes memStart) (align4Bytes memStart) [] ∧
      load32 fresh.2 (candiateAt (align4Bytes memStart)) = 20 ∧
      load32 fresh.2 (align4Bytes memStart + 20) =
        poolsizeToEfftsize (usable memStart chunkSize - 20) := by
  obtain ⟨-, htop, hge, -, hnode⟩ := accepted_reads hspace haccepted
  have husable : usable memStart chunkSize = memStart + chunkSize - align4Bytes memStart := rfl
  have hsize : poolsizeToEfftsize (usable memStart chunkSize - 20) < wordModulus :=
    Nat.mod_lt _ (by decide)
  have hself : offsetNode (align4Bytes memStart) 0 = align4Bytes memStart := by
    rw [offsetNode, Nat.add_zero, Nat.mod_eq_of_lt (by omega)]
  intro fresh
  simp only [fresh, initShmAllocator_eq hspace haccepted hfresh]
  refine ⟨trivial, ⟨?_, ?_⟩, ⟨⟨?_, ?_⟩, trivial⟩, ?_, ?_⟩
  all_goals simp only [magicFlagAt, chunkSizeAt, candiateAt, nextOf, prevOf]
  all_goals simp (disch := (simp only [Apart]; omega)) only [load32_store32_same,
    load32_store32_of_apart]
  · rfl
  · rw [Nat.mod_eq_of_lt (by omega)]
    omega
  · exact hself
  · exact hself
  · rfl
  · exact Nat.mod_eq_of_lt hsize

/-- The size of the first block, which wraps when there is no room for its header. -/
theorem firstSize_eq_iff (htop : memStart + chunkSize < wordModulus)
    (hge : memStart ≤ align4Bytes memStart)
    (hnode : align4Bytes memStart + 20 < memStart + chunkSize) :
    align4Bytes memStart + 20 + 4 + poolsizeToEfftsize (usable memStart chunkSize - 20) =
      memStart + chunkSize ↔ RoomForHeaders memStart chunkSize := by
  simp only [RoomForHeaders, sizeofShmAlloc, efftsizeToPoolsize, poolsizeToEfftsize,
    subWord, usable, wordModulus] at htop ⊢
  omega

/-- On a chunk that it initialises, `init_shm_allocator` makes up no memory exactly
when there is room for both headers. -/
theorem neverFabricates_iff (hspace : memStart + chunkSize ≤ wordModulus)
    (haccepted : (initShmAllocator mem memStart chunkSize).1 ≠ 0)
    (hfresh : load32 mem (magicFlagAt (align4Bytes memStart)) ≠ constMagicFlag) :
    NeverFabricates mem memStart chunkSize ↔ RoomForHeaders memStart chunkSize := by
  obtain ⟨htested, htop, hge, -, hnode⟩ := accepted_reads hspace haccepted
  obtain ⟨hhandle, hheader, hring, hcandiate, hsize⟩ := fresh_words hspace haccepted hfresh
  have hcandidate : candidateNode (initShmAllocator mem memStart chunkSize).2
      (initShmAllocator mem memStart chunkSize).1 = align4Bytes memStart + 20 := by
    rw [candidateNode, hhandle, hcandiate, offsetNode, Nat.mod_eq_of_lt (by omega)]
  have hrecorded := firstSize_eq_iff htop hge hnode
  constructor
  · intro hnever
    have hfirst := hnever.recorded
    simp only [hcandidate, hsize] at hfirst
    exact hrecorded.mp hfirst
  · intro hroom
    have hfirst := hrecorded.mpr hroom
    have hheaders : align4Bytes memStart + 24 ≤ memStart + chunkSize := by
      simpa [RoomForHeaders, sizeofShmAlloc, efftsizeToPoolsize, wordModulus] using hroom
    let region : ShmRegion := ⟨align4Bytes memStart, memStart + chunkSize,
      hhandle ▸ Nat.pos_of_ne_zero haccepted, hheaders, htop⟩
    have hinit : FreshInv region (refInit mem memStart chunkSize) := by
      refine ⟨hheader, align4Bytes memStart + 20, .candidate le_rfl hheaders hring ?_ ?_, ?_⟩
      · exact hcandiate.trans (Nat.add_sub_cancel_left _ _).symm
      · rw [refInit, hsize]
        simp only [region]
        omega
      · intro tally htally
        cases htally
    refine ⟨?_, ?_⟩
    · simp only [hcandidate, hsize]
      exact hfirst
    · intro calls hcalls
      rw [hhandle] at hcalls ⊢
      obtain ⟨final, hrun, hfinal⟩ := runMachine_invariant (FreshInv region)
        (fun _ _ hinv hcall => hinv.step hcall) hinit hcalls
      exact ⟨final, hrun, hfinal.within⟩

end

/-- A chunk of 200 bytes at an odd address has room for both headers. -/
theorem neverFabricates_iff_odd :
    (initShmAllocator (fun _ => 0) 65 200).1 ≠ 0 ∧ NeverFabricates (fun _ => 0) 65 200 := by
  have haccepted : (initShmAllocator (fun _ => 0) 65 200).1 ≠ 0 := by decide +kernel
  exact ⟨haccepted, (neverFabricates_iff (by decide) haccepted (by decide +kernel)).mpr
    (by decide)⟩

/-- A chunk of 25 bytes at 65 is initialised. Its aligned header starts at 68 and the
first block at 88, two bytes before the end: its size is recorded as almost the
whole address space, and a request for 1000 bytes is served from it. -/
theorem cramped_chunk_fabricates :
    ((initShmAllocator (fun _ => 0) 65 25).1 = 68 ∧
      load32 (initShmAllocator (fun _ => 0) 65 25).2 88 = 0xFFFFFFFE ∧
      (shmMalloc (initShmAllocator (fun _ => 0) 65 25).2 68 1000).map Prod.fst = some 92) ∧
    ¬ NeverFabricates (fun _ => 0) 65 25 := by
  refine ⟨by decide +kernel, fun hnever => ?_⟩
  have hfirst := hnever.recorded
  revert hfirst
  decide +kernel

end McuProxy.Ckits
