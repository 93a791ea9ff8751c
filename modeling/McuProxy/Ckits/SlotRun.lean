/-
# Runs of the slot allocator

A run is any sequence of `slot_malloc`, of `slot_free` of slots that are held, and
of bytes written inside them. The free list is threaded through the free slots
themselves, so what carries a run is that every slot of the chunk is in one place:
on the ring or in somebody's hands.

The ring is a queue. `handed` and `freed` are ghosts that record every slot ever
given out and ever given back, in order; together with the ring they are the slots
of the chunk followed by those given back. The chunk is an object of its own, so
it does not overlap the `slot_alloc_t`, and the address behind its last byte is an
address.
-/

import McuProxy.Ckits.SlotAlloc
import McuProxy.Math.Machine

namespace McuProxy.Ckits.Slot

open McuProxy.Memory McuProxy.Math McuProxy.Ckits.Pool

/-- The slot size that `init_slot_allocator` makes of the one it finds. -/
def roundedSize (slotSize : Nat) : Nat :=
  let size := ((slotSize + 7) % wordModulus) &&& 0xFFFFFFF8
  if size < sizeofFreeSlot then sizeofFreeSlot else size

theorem roundedSize_bounds (slotSize : Nat) :
    8 ≤ roundedSize slotSize ∧ roundedSize slotSize < wordModulus := by
  have hword : (slotSize + 7) % wordModulus < wordModulus := Nat.mod_lt _ (by decide)
  have hmasked : ((slotSize + 7) % wordModulus) &&& 0xFFFFFFF8 ≤ (slotSize + 7) % wordModulus :=
    Nat.and_le_left
  by_cases hsmall : ((slotSize + 7) % wordModulus) &&& 0xFFFFFFF8 < sizeofFreeSlot
  · have hrounded : roundedSize slotSize = 8 := if_pos hsmall
    rw [hrounded]
    decide
  · have hrounded : roundedSize slotSize = ((slotSize + 7) % wordModulus) &&& 0xFFFFFFF8 :=
      if_neg hsmall
    rw [hrounded]
    rw [sizeofFreeSlot] at hsmall
    omega

/-- A `slot_alloc_t` and a chunk that do not overlap, with the words that
`init_slot_allocator` reads. -/
structure SlotChunk where
  allocator : Nat
  slotSize : Nat
  chunkMem : Nat
  chunkSize : Nat
  allocator_pos : 0 < allocator
  allocator_le : allocator + 20 ≤ wordModulus
  slotSize_pos : 0 < slotSize
  chunkMem_pos : 0 < chunkMem
  chunkSize_pos : 0 < chunkSize
  top_lt : chunkMem + chunkSize < wordModulus
  outside : Apart allocator 20 chunkMem chunkSize

namespace SlotChunk

/-- The size of the slots, after rounding. -/
def size (chunk : SlotChunk) : Nat := roundedSize chunk.slotSize

/-- The number of slots. -/
def nmemb (chunk : SlotChunk) : Nat := chunk.chunkSize / chunk.size

/-- All slots of the chunk. -/
def slots (chunk : SlotChunk) : List Nat := slotsFrom chunk.size chunk.nmemb chunk.chunkMem

variable {chunk : SlotChunk} {slot : Nat}

theorem size_ge (chunk : SlotChunk) : 8 ≤ chunk.size := (roundedSize_bounds chunk.slotSize).1

theorem inside (hslot : slot ∈ chunk.slots) :
    chunk.chunkMem ≤ slot ∧ slot + chunk.size ≤ chunk.chunkMem + chunk.chunkSize := by
  have hslot' := mem_slotsFrom hslot
  have hfit : chunk.nmemb * chunk.size ≤ chunk.chunkSize := Nat.div_mul_le_self _ _
  omega

theorem nodup_slots (chunk : SlotChunk) : chunk.slots.Nodup :=
  slotsFrom_nodup _ _ _ (by have hsize := chunk.size_ge; omega)

/-- The head of the free list and the slots do not overlap. -/
theorem placed (chunk : SlotChunk) : Placed 0 (freeHead chunk.allocator :: chunk.slots) := by
  have hsize := chunk.size_ge
  have hle := chunk.allocator_le
  have htop := chunk.top_lt
  have houtside := chunk.outside
  simp only [Apart] at houtside
  refine ⟨?_, List.pairwise_cons.mpr ⟨?_, ?_⟩⟩
  · rw [List.forall_mem_cons]
    refine ⟨by rw [freeHead]; omega, ?_⟩
    intro slot hslot
    have hinside := inside hslot
    omega
  · intro slot hslot
    have hinside := inside hslot
    simp only [Apart, freeHead]
    omega
  · refine (slotsFrom_apart chunk.size chunk.nmemb chunk.chunkMem).imp ?_
    intro first second hapart
    simp only [Apart] at hapart ⊢
    omega

/-- The slots are fewer than the turns that a loop over the free list may take. -/
theorem length_lt (chunk : SlotChunk) : chunk.slots.length < loopFuel := by
  have hcount : chunk.nmemb ≤ chunk.chunkSize := Nat.div_le_self _ _
  have htop := chunk.top_lt
  rw [slots, length_slotsFrom, loopFuel]
  omega

end SlotChunk

/-- The words of the `slot_alloc_t` before and after the call that rounds the slot
size. -/
def Words (mem : Mem) (chunk : SlotChunk) (slotSize : Nat) : Prop :=
  Ready mem chunk.allocator slotSize chunk.chunkMem chunk.chunkSize

section

variable {mem mem' : Mem} {chunk : SlotChunk} {slotSize : Nat} {objs free held : List Nat}

/-- Bytes outside the head of the free list and outside the chunk keep the other
words of the `slot_alloc_t`. -/
theorem Words.of_outside (hwords : Words mem chunk slotSize)
    (hsame : ∀ addr, addr < freeHead chunk.allocator ∨ freeHead chunk.allocator + 8 ≤ addr →
      addr < chunk.chunkMem ∨ chunk.chunkMem + chunk.chunkSize ≤ addr → mem' addr = mem addr) :
    Words mem' chunk slotSize := by
  have houtside := chunk.outside
  simp only [Apart] at houtside
  have hword : ∀ n, n = 0 ∨ n = 12 ∨ n = 16 →
      load32 mem' (chunk.allocator + n) = load32 mem (chunk.allocator + n) := by
    intro n hn
    apply load32_congr
    intro addr hlow hhigh
    exact hsame addr (by rw [freeHead]; omega) (by omega)
  exact { hwords with
    sizeWord := (hword 0 (by omega)).trans hwords.sizeWord
    memWord := (hword 12 (by omega)).trans hwords.memWord
    lengthWord := (hword 16 (by omega)).trans hwords.lengthWord }

/-- Relinking slots and the head keeps the other words of the `slot_alloc_t`. -/
theorem Words.of_untouched (hwords : Words mem chunk slotSize)
    (huntouched : Untouched mem mem' objs)
    (hobjs : ∀ obj ∈ objs, obj = freeHead chunk.allocator ∨ obj ∈ chunk.slots) :
    Words mem' chunk slotSize := by
  refine hwords.of_outside fun addr hhead hchunk => huntouched addr fun obj hobj => ?_
  rcases hobjs obj hobj with rfl | hslot
  · exact hhead
  · have hinside := SlotChunk.inside hslot
    have hsize := chunk.size_ge
    omega

/-- `init_slot_allocator` puts all slots of the chunk on the free list. -/
theorem initSlotAllocator_slots (hwords : Words mem chunk chunk.slotSize) :
    ∃ mem', initSlotAllocator mem chunk.allocator = (0, mem') ∧
      Ring mem' 0 (freeHead chunk.allocator) chunk.slots ∧ Words mem' chunk chunk.size := by
  have hle := chunk.allocator_le
  have houtside := chunk.outside
  have hsize := chunk.size_ge
  simp only [Apart] at houtside
  let start := initListHead mem (freeHead chunk.allocator)
  let linked := addSlots (freeHead chunk.allocator) chunk.size chunk.nmemb start chunk.chunkMem
  have hempty : Ring start 0 (freeHead chunk.allocator) [] :=
    ring_initListHead mem (by rw [freeHead]; omega)
  obtain ⟨hring, huntouched⟩ := addSlots_spec hempty chunk.placed
  rw [List.nil_append] at hring huntouched
  have hstart : Words start chunk chunk.slotSize := by
    refine hwords.of_outside fun addr hhead _ => ?_
    simp only [start, initListHead]
    rw [store32_apply (by omega), store32_apply (by omega)]
  have hlinked : Words linked chunk chunk.slotSize :=
    hstart.of_untouched huntouched fun obj hobj => List.mem_cons.mp hobj
  have hcall : initSlotAllocator mem chunk.allocator =
      (0, store32 linked chunk.allocator chunk.size) := by
    rw [initSlotAllocator, hwords.not_bad, if_neg (by decide)]
    simp only [hwords.sizeWord, hwords.memWord, hwords.lengthWord]
    rfl
  refine ⟨_, hcall, ?_, ?_⟩
  · -- The word of the slot size lies in front of the head, and outside the chunk.
    refine ring_congr ?_ hring
    intro obj hobj
    apply store32_sameOn
    simp only [Apart]
    rcases List.mem_cons.mp hobj with rfl | hslot
    · exact Or.inl (by rw [freeHead])
    · have hinside := SlotChunk.inside hslot
      omega
  · have hstored : load32 (store32 linked chunk.allocator chunk.size) chunk.allocator =
      chunk.size := by
      rw [load32_store32_same]
      exact Nat.mod_eq_of_lt (roundedSize_bounds chunk.slotSize).2
    have hother : ∀ n, n = 12 ∨ n = 16 →
        load32 (store32 linked chunk.allocator chunk.size) (chunk.allocator + n) =
          load32 linked (chunk.allocator + n) := fun n hn =>
      load32_store32_of_apart (by simp only [Apart]; omega)
    exact { hlinked with
      sizeWord := hstored
      memWord := (hother 12 (by omega)).trans hlinked.memWord
      lengthWord := (hother 16 (by omega)).trans hlinked.lengthWord
      slotSize_pos := by omega }

end

/-- Memory, the slots that are held, and two ghosts: all slots ever given out and
all slots ever given back. -/
structure SlotState where
  mem : Mem
  held : List Nat
  handed : List Nat
  freed : List Nat

/-- What callers do: the calls of the allocator, and writing a byte. -/
inductive SlotCall
  | malloc (size : Nat)
  | free (unit : Nat)
  | write (addr : Nat) (byte : UInt8)
  deriving DecidableEq, Repr

/-- One call on the chunk of a `slot_alloc_t`. -/
def slotStep (allocator : Nat) (state : SlotState) : SlotCall → Option SlotState
  | .malloc size =>
      let (slot, mem) := slotMalloc state.mem allocator size
      if slot = 0 then some { state with mem := mem }
      else some
        { state with mem := mem, held := slot :: state.held, handed := state.handed ++ [slot] }
  | .free unit => some
      { state with
        mem := slotFree state.mem allocator unit
        held := state.held.erase unit
        freed := state.freed ++ [unit] }
  | .write addr byte => some { state with mem := store8 state.mem addr byte }

/-- The state after `init_slot_allocator`. -/
def slotInit (mem : Mem) (allocator : Nat) : SlotState :=
  ⟨(initSlotAllocator mem allocator).2, [], [], []⟩

/-- What callers keep to: only slots that are held are freed, and bytes are written
inside them. -/
def Permitted (slotSize : Nat) (state : SlotState) : SlotCall → Prop
  | .malloc _ => True
  | .free unit => unit ∈ state.held
  | .write addr _ => ∃ slot ∈ state.held, slot ≤ addr ∧ addr < slot + slotSize

instance (slotSize : Nat) (state : SlotState) (call : SlotCall) :
    Decidable (Permitted slotSize state call) :=
  match call with
  | .malloc _ => inferInstanceAs (Decidable True)
  | .free unit => inferInstanceAs (Decidable (unit ∈ state.held))
  | .write addr _ =>
      inferInstanceAs (Decidable (∃ slot ∈ state.held, slot ≤ addr ∧ addr < slot + slotSize))

/-- What every state of a run satisfies, with the slots on the free list in order:
each slot of the chunk is free or held, and those that were given out, followed by
those on the list, are the slots of the chunk followed by those given back. -/
structure SlotInv (chunk : SlotChunk) (free : List Nat) (state : SlotState) : Prop where
  words : Words state.mem chunk chunk.size
  ring : Ring state.mem 0 (freeHead chunk.allocator) free
  slots : (free ++ state.held).Perm chunk.slots
  queue : state.handed ++ free = chunk.slots ++ state.freed

namespace SlotInv

variable {chunk : SlotChunk} {slot unit size : Nat} {free : List Nat} {state : SlotState}

theorem mem_slots (hinv : SlotInv chunk free state) (hslot : slot ∈ free ++ state.held) :
    slot ∈ chunk.slots := hinv.slots.mem_iff.mp hslot

theorem nodup (hinv : SlotInv chunk free state) : (free ++ state.held).Nodup :=
  hinv.slots.nodup_iff.mpr chunk.nodup_slots

/-- The head and the slots on its list do not overlap. -/
theorem placed (hinv : SlotInv chunk free state) : Placed 0 (freeHead chunk.allocator :: free) :=
  (chunk.placed.perm (hinv.slots.symm.cons _)).sublist ((List.sublist_append_left _ _).cons_cons _)

/-- Two different slots, or the same one. -/
theorem eq_or_apart {other : Nat} (hslot : slot ∈ chunk.slots) (hother : other ∈ chunk.slots) :
    slot = other ∨ Apart slot chunk.size other chunk.size := by
  by_cases heq : slot = other
  · exact Or.inl heq
  · exact Or.inr ((slotsFrom_apart chunk.size chunk.nmemb chunk.chunkMem).forall hslot hother heq)

/-- A request of an admissible size is served while a slot is free. -/
theorem slotMalloc_iff (hinv : SlotInv chunk free state) (hsize : 0 < size)
    (hfit : size ≤ chunk.size) :
    (slotMalloc state.mem chunk.allocator size).1 = 0 ↔ free = [] := by
  cases free with
  | nil =>
      rw [slotMalloc_nil hinv.ring]
      exact iff_of_true rfl rfl
  | cons slot free =>
      obtain ⟨mem', hcall, _⟩ := slotMalloc_cons hinv.words hsize hfit hinv.ring hinv.placed
      have hinside := SlotChunk.inside
        (hinv.mem_slots (by simp : slot ∈ slot :: free ++ state.held))
      have hpos := chunk.chunkMem_pos
      rw [hcall]
      simp only [reduceCtorEq, iff_false]
      omega

/-- `slot_malloc`. -/
theorem malloc (hinv : SlotInv chunk free state) (size : Nat) :
    ∃ next free', slotStep chunk.allocator state (.malloc size) = some next ∧
      SlotInv chunk free' next := by
  by_cases hfit : 0 < size ∧ size ≤ chunk.size
  · cases free with
    | nil =>
        refine ⟨state, [], ?_, hinv⟩
        simp only [slotStep, slotMalloc_nil hinv.ring, if_true]
    | cons slot free =>
        obtain ⟨mem', hcall, hring, huntouched⟩ :=
          slotMalloc_cons hinv.words hfit.1 hfit.2 hinv.ring hinv.placed
        have hslot : slot ∈ chunk.slots := hinv.mem_slots (by simp)
        have hne : slot ≠ 0 := by
          have hinside := SlotChunk.inside hslot
          have hpos := chunk.chunkMem_pos
          omega
        refine ⟨{ state with
            mem := mem', held := slot :: state.held, handed := state.handed ++ [slot] },
          free, ?_, ?_, hring, List.perm_middle.trans hinv.slots, ?_⟩
        · simp only [slotStep, hcall, if_neg hne]
        · refine hinv.words.of_untouched huntouched ?_
          rw [List.forall_mem_cons]
          exact ⟨Or.inl rfl, fun obj hobj => Or.inr (hinv.mem_slots (List.mem_append_left _ hobj))⟩
        · rw [List.append_assoc]
          exact hinv.queue
  · -- A size that is refused.
    have hrefused : size = 0 ∨ size > load32 state.mem chunk.allocator := by
      rw [hinv.words.sizeWord]
      omega
    refine ⟨state, free, ?_, hinv⟩
    simp only [slotStep, slotMalloc, if_pos hrefused, ite_self, if_true]

/-- `slot_free` of a slot that is held. -/
theorem giveBack (hinv : SlotInv chunk free state) (hheld : unit ∈ state.held) :
    SlotInv chunk (free ++ [unit])
      { state with
        mem := slotFree state.mem chunk.allocator unit
        held := state.held.erase unit
        freed := state.freed ++ [unit] } := by
  have hunit : unit ∈ chunk.slots := hinv.mem_slots (List.mem_append_right _ hheld)
  have hinside := SlotChunk.inside hunit
  have hsize := chunk.size_ge
  have hperm : (unit :: free ++ state.held.erase unit).Perm chunk.slots :=
    (List.perm_middle.symm.trans ((List.perm_cons_erase hheld).symm.append_left free)).trans
      hinv.slots
  have hplaced : Placed 0 (unit :: freeHead chunk.allocator :: free) := by
    refine Placed.perm ?_ (List.Perm.swap unit (freeHead chunk.allocator) free)
    exact (chunk.placed.perm (hperm.symm.cons _)).sublist
      ((List.sublist_append_left _ _).cons_cons _)
  obtain ⟨hring, huntouched⟩ :=
    slotFree_spec hinv.words chunk.top_lt hinside.1 (by omega) hinv.ring hplaced
  refine ⟨hinv.words.of_untouched huntouched ?_, hring, ?_, ?_⟩
  · rw [List.forall_mem_cons, List.forall_mem_cons]
    exact ⟨Or.inr hunit, Or.inl rfl,
      fun obj hobj => Or.inr (hinv.mem_slots (List.mem_append_left _ hobj))⟩
  · rw [List.append_assoc, List.singleton_append]
    exact List.perm_middle.trans hperm
  · rw [← List.append_assoc, hinv.queue, List.append_assoc]

/-- A byte written inside a slot that is held. -/
theorem write (hinv : SlotInv chunk free state) {addr : Nat} (byte : UInt8)
    (hheld : slot ∈ state.held)
    (hlow : slot ≤ addr) (hhigh : addr < slot + chunk.size) :
    SlotInv chunk free { state with mem := store8 state.mem addr byte } := by
  have hslot : slot ∈ chunk.slots := hinv.mem_slots (List.mem_append_right _ hheld)
  have hinside := SlotChunk.inside hslot
  have hsize := chunk.size_ge
  have hother : ∀ other, other ≠ addr → store8 state.mem addr byte other = state.mem other :=
    fun other hne => by simp only [store8, if_neg hne]
  refine ⟨hinv.words.of_outside fun other _ hchunk => hother other (by omega), ?_, hinv.slots,
    hinv.queue⟩
  refine ring_congr ?_ hinv.ring
  have houtside := chunk.outside
  simp only [Apart] at houtside
  rw [List.forall_mem_cons]
  constructor
  · intro other hfrom hto
    refine hother other ?_
    rw [freeHead] at hfrom hto
    omega
  · intro obj hobj other hfrom hto
    have hne : slot ≠ obj := by
      rintro rfl
      exact List.disjoint_of_nodup_append hinv.nodup hobj hheld
    have hapart :=
      (eq_or_apart hslot (hinv.mem_slots (List.mem_append_left _ hobj))).resolve_left hne
    simp only [Apart] at hapart
    exact hother other (by omega)

/-- Every call in a state of a run. -/
theorem step (hinv : SlotInv chunk free state) {call : SlotCall}
    (hpermitted : Permitted chunk.size state call) :
    ∃ next, slotStep chunk.allocator state call = some next ∧
      ∃ free', SlotInv chunk free' next := by
  cases call with
  | malloc size =>
      obtain ⟨next, free', hstep, hnext⟩ := hinv.malloc size
      exact ⟨next, hstep, free', hnext⟩
  | free unit => exact ⟨_, rfl, _, hinv.giveBack hpermitted⟩
  | write addr byte =>
      obtain ⟨slot, hheld, hlow, hhigh⟩ := hpermitted
      exact ⟨_, rfl, free, hinv.write byte hheld hlow hhigh⟩

end SlotInv

/-- A slot allocator that is sound, in terms of memory and of what callers hold. -/
structure SlotSound (allocator slotSize chunkMem chunkSize : Nat) (state : SlotState) : Prop where
  rounded : load32 state.mem allocator = slotSize
  disjoint : state.held.Pairwise fun first second => Apart first slotSize second slotSize
  inside : ∀ slot ∈ state.held, chunkMem ≤ slot ∧ slot + slotSize ≤ chunkMem + chunkSize
  free_nodup : (listObjects state.mem 0 (freeHead allocator)).Nodup
  free_iff : ∀ slot, slot ∈ listObjects state.mem 0 (freeHead allocator) ↔
    slot ∈ slotsFrom slotSize (chunkSize / slotSize) chunkMem ∧ slot ∉ state.held
  counted : (listObjects state.mem 0 (freeHead allocator)).length + state.held.length =
    chunkSize / slotSize
  fails_iff : ∀ size, 0 < size → size ≤ slotSize →
    ((slotMalloc state.mem allocator size).1 = 0 ↔ state.held.length = chunkSize / slotSize)
  reused : state.handed ++ listObjects state.mem 0 (freeHead allocator) =
    slotsFrom slotSize (chunkSize / slotSize) chunkMem ++ state.freed

/-- The invariant in terms of memory and of what callers hold. -/
theorem slotSound_of_inv {chunk : SlotChunk} {free : List Nat} {state : SlotState}
    (hinv : SlotInv chunk free state) :
    SlotSound chunk.allocator chunk.size chunk.chunkMem chunk.chunkSize state := by
  have hnodup := hinv.nodup
  have hlength := hinv.slots.length_eq
  rw [List.length_append, SlotChunk.slots, length_slotsFrom, SlotChunk.nmemb] at hlength
  have hobjects : listObjects state.mem 0 (freeHead chunk.allocator) = free := by
    refine listObjects_eq hinv.ring (List.nodup_cons.mp hinv.placed.nodup).1 ?_
    have hlt := chunk.length_lt
    rw [SlotChunk.slots, length_slotsFrom, SlotChunk.nmemb] at hlt
    omega
  have hheld : ∀ slot ∈ state.held, slot ∈ chunk.slots := fun slot hslot =>
    hinv.mem_slots (List.mem_append_right _ hslot)
  refine ⟨hinv.words.sizeWord, ?_,
    fun slot hslot => SlotChunk.inside (hheld slot hslot), ?_, ?_, ?_, ?_, ?_⟩
  · refine (List.nodup_append.mp hnodup).2.1.imp_of_mem ?_
    intro first second hfirst hsecond hne
    exact (SlotInv.eq_or_apart (hheld first hfirst) (hheld second hsecond)).resolve_left hne
  · rw [hobjects]
    exact (List.nodup_append.mp hnodup).1
  · intro slot
    rw [hobjects]
    constructor
    · intro hfree
      exact ⟨hinv.mem_slots (List.mem_append_left _ hfree),
        List.disjoint_of_nodup_append hnodup hfree⟩
    · rintro ⟨hslot, hout⟩
      exact (List.mem_append.mp (hinv.slots.mem_iff.mpr hslot)).resolve_right hout
  · rw [hobjects]
    exact hlength
  · intro size hsize hfit
    rw [hinv.slotMalloc_iff hsize hfit, ← List.length_eq_zero_iff]
    omega
  · rw [hobjects]
    exact hinv.queue

/-- Whatever callers do, every call comes to its end and leaves a sound allocator:
the slots that are held are disjoint ranges of the chunk, the free list has exactly
the others, `slot_malloc` fails only when there are none, and slots are given out
again in the order in which they came back. -/
theorem slot_allocator_sound {mem : Mem} {allocator slotSize chunkMem chunkSize : Nat}
    (hspace : chunkMem + chunkSize < wordModulus) (hstruct : allocator + 20 ≤ wordModulus)
    (hapart : Apart allocator 20 chunkMem chunkSize)
    (hslot : load32 mem allocator = slotSize)
    (hmem : load32 mem (slotChunkMemAt allocator) = chunkMem)
    (hchunk : load32 mem (slotChunkSizeAt allocator) = chunkSize)
    (haccepted : (initSlotAllocator mem allocator).1 = 0) {calls : List SlotCall}
    (hcalls : Promised (slotStep allocator) (Permitted (roundedSize slotSize))
      (slotInit mem allocator) calls) :
    ∃ final, runMachine (slotStep allocator) (slotInit mem allocator) calls = some final ∧
      SlotSound allocator (roundedSize slotSize) chunkMem chunkSize final := by
  have htested : badSlotAllocator mem allocator = false := by
    by_contra hbad
    rw [Bool.not_eq_false] at hbad
    rw [initSlotAllocator, if_pos hbad] at haccepted
    cases haccepted
  have hpositive : 0 < allocator ∧ 0 < slotSize ∧ 0 < chunkMem ∧ 0 < chunkSize := by
    simp only [badSlotAllocator, hslot, hmem, hchunk, Bool.or_eq_false_iff,
      decide_eq_false_iff_not] at htested
    omega
  obtain ⟨hallocator, hslotPos, hmemPos, hchunkPos⟩ := hpositive
  let chunk : SlotChunk := ⟨allocator, slotSize, chunkMem, chunkSize, hallocator, hstruct, hslotPos,
    hmemPos, hchunkPos, hspace, hapart⟩
  have hwords : Words mem chunk slotSize :=
    ⟨hslot, hmem, hchunk, hallocator, hslotPos, hmemPos, hchunkPos⟩
  obtain ⟨mem', hinit, hring, hready⟩ := initSlotAllocator_slots hwords
  have hstart : SlotInv chunk chunk.slots (slotInit mem allocator) := by
    simp only [slotInit, show initSlotAllocator mem allocator = (0, mem') from hinit]
    exact ⟨hready, hring, by simp, by simp⟩
  have hstep : ∀ state call, (∃ free, SlotInv chunk free state) →
      Permitted (roundedSize slotSize) state call →
      ∃ next, slotStep allocator state call = some next ∧ ∃ free, SlotInv chunk free next := by
    intro state call hstate hpermitted
    obtain ⟨free, hinv⟩ := hstate
    exact hinv.step hpermitted
  obtain ⟨final, hrun, free, hinv⟩ :=
    runMachine_invariant (fun state => ∃ free, SlotInv chunk free state)
    hstep ⟨_, hstart⟩ hcalls
  exact ⟨final, hrun, slotSound_of_inv hinv⟩

/-- A `slot_alloc_t` at 1000 that asks for slots of 10 bytes in a chunk of 70 bytes
at 64. -/
def sampleSlots : Mem :=
  store32 (store32 (store32 (fun _ => 0) 1000 10) (slotChunkMemAt 1000) 64)
    (slotChunkSizeAt 1000) 70

/-- All four slots of 16 bytes are taken, two come back and one goes out again. -/
def slotsReturned : List SlotCall :=
  [.malloc 16, .malloc 1, .write 65 7, .malloc 10, .malloc 16, .malloc 16, .free 96, .write 127 9,
    .free 64, .malloc 17, .malloc 3]

theorem slot_allocator_sound_returned :
    roundedSize 10 = 16 ∧
      ∃ final, runMachine (slotStep 1000) (slotInit sampleSlots 1000) slotsReturned = some final ∧
        SlotSound 1000 (roundedSize 10) 64 70 final :=
  ⟨by decide, slot_allocator_sound (by decide) (by decide) (Or.inr (by decide)) (by decide)
    (by decide) (by decide) (by decide +kernel) (by decide +kernel)⟩

end McuProxy.Ckits.Slot
