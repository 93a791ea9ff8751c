/-
# The slot allocator

The fixed-size half of `myAlloc.c`, on the same 32-bit memory as the pool. A
`slot_alloc_t` holds, in twenty bytes, `slotSize`, the head `freeSlots` of the
free list, `chunkMem` and `chunkSize`. A free slot starts with its links; a slot
in use belongs to the caller with all its bytes, the links included.

Each call is described by the ring of free slots it leaves and by the bytes it
does not touch. What a caller keeps in its slots is therefore safe as long as it
is not on the ring.
-/

import McuProxy.Ckits.MyAlloc

namespace McuProxy.Ckits.Slot

open McuProxy.Memory McuProxy.Ckits.Pool

/-- `sizeof(free_slot_t)`. -/
def sizeofFreeSlot : Nat := 8

/-- Addresses of the members of `slot_alloc_t`; `slotSize` is at its start. -/
def freeHead (allocator : Nat) : Nat := allocator + 4

def slotChunkMemAt (allocator : Nat) : Nat := allocator + 12

def slotChunkSizeAt (allocator : Nat) : Nat := allocator + 16

/-- The test with which the calls refuse an allocator. -/
def badSlotAllocator (mem : Mem) (allocator : Nat) : Bool :=
  allocator = 0 || load32 mem allocator = 0 || load32 mem (slotChunkMemAt allocator) = 0 ||
    load32 mem (slotChunkSizeAt allocator) = 0

/-- The loop of `init_slot_allocator`, from the slot at `slot` on. -/
def addSlots (head size : Nat) : Nat → Mem → Nat → Mem
  | 0, mem, _ => mem
  | nmemb + 1, mem, slot => addSlots head size nmemb (listAddTail mem 0 slot head) (slot + size)

/-- `init_slot_allocator`; 0 is success. -/
def initSlotAllocator (mem : Mem) (allocator : Nat) : Int × Mem :=
  if badSlotAllocator mem allocator then (-1, mem)
  else
    let size := ((load32 mem allocator + 7) % wordModulus) &&& 0xFFFFFFF8
    let size := if size < sizeofFreeSlot then sizeofFreeSlot else size
    let nmemb := load32 mem (slotChunkSizeAt allocator) / size
    let start := load32 mem (slotChunkMemAt allocator)
    let mem := initListHead mem (freeHead allocator)
    let mem := addSlots (freeHead allocator) size nmemb mem start
    (0, store32 mem allocator size)

/-- `slot_malloc`; 0 is the null pointer. -/
def slotMalloc (mem : Mem) (allocator size : Nat) : Nat × Mem :=
  if badSlotAllocator mem allocator then (0, mem)
  else if size = 0 ∨ size > load32 mem allocator then (0, mem)
  else
    let slot := nextOf mem 0 (freeHead allocator)
    if slot = freeHead allocator then (0, mem) else (slot, listDel mem 0 slot)

/-- `slot_free`. -/
def slotFree (mem : Mem) (allocator unit : Nat) : Mem :=
  let chunkMem := load32 mem (slotChunkMemAt allocator)
  let chunkSize := load32 mem (slotChunkSizeAt allocator)
  if badSlotAllocator mem allocator || unit = 0 then mem
  else if unit ≥ addrPlus chunkMem chunkSize ∨ unit < chunkMem then mem
  else listAddTail mem 0 unit (freeHead allocator)

/-- `nmemb` slots of the given size, from `slot` on. -/
def slotsFrom (size : Nat) : Nat → Nat → List Nat
  | 0, _ => []
  | nmemb + 1, slot => slot :: slotsFrom size nmemb (slot + size)

@[simp]
theorem length_slotsFrom (size nmemb slot : Nat) : (slotsFrom size nmemb slot).length = nmemb := by
  induction nmemb generalizing slot with
  | zero => rfl
  | succ nmemb ih => rw [slotsFrom, List.length_cons, ih]

/-- A slot lies inside the chunk. -/
theorem mem_slotsFrom {size nmemb start slot : Nat} (hslot : slot ∈ slotsFrom size nmemb start) :
    start ≤ slot ∧ slot + size ≤ start + nmemb * size := by
  induction nmemb generalizing start with
  | zero => simp [slotsFrom] at hslot
  | succ nmemb ih =>
      have hgrow : (nmemb + 1) * size = nmemb * size + size := Nat.succ_mul nmemb size
      rcases List.mem_cons.mp hslot with rfl | hrest
      · omega
      · have hinside := ih hrest
        omega

/-- Slots do not overlap. -/
theorem slotsFrom_apart (size nmemb start : Nat) :
    (slotsFrom size nmemb start).Pairwise fun first second => Apart first size second size := by
  induction nmemb generalizing start with
  | zero => exact List.Pairwise.nil
  | succ nmemb ih =>
      refine List.pairwise_cons.mpr ⟨?_, ih (start + size)⟩
      intro slot hslot
      exact Or.inl (mem_slotsFrom hslot).1

theorem Untouched.trans_of_subset {first second third : Mem} {objs objs' all : List Nat}
    (hfirst : Untouched first second objs) (hsecond : Untouched second third objs')
    (hsub : objs ⊆ all) (hsub' : objs' ⊆ all) : Untouched first third all := fun addr haddr =>
  (hsecond addr fun obj hobj => haddr obj (hsub' hobj)).trans
    (hfirst addr fun obj hobj => haddr obj (hsub hobj))

/-- The slots are put on the ring one after the other. -/
theorem addSlots_spec {head size nmemb : Nat} {mem : Mem} {nodes : List Nat} {slot : Nat}
    (hring : Ring mem 0 head nodes)
    (hplaced : Placed 0 (head :: (nodes ++ slotsFrom size nmemb slot))) :
    Ring (addSlots head size nmemb mem slot) 0 head (nodes ++ slotsFrom size nmemb slot) ∧
      Untouched mem (addSlots head size nmemb mem slot)
        (head :: (nodes ++ slotsFrom size nmemb slot)) := by
  induction nmemb generalizing mem nodes slot with
  | zero =>
      rw [slotsFrom, List.append_nil]
      exact ⟨hring, fun _ _ => rfl⟩
  | succ nmemb ih =>
      have hsplit : nodes ++ slotsFrom size (nmemb + 1) slot =
          (nodes ++ [slot]) ++ slotsFrom size nmemb (slot + size) := by
        rw [slotsFrom, List.append_assoc, List.singleton_append]
      rw [hsplit] at hplaced ⊢
      have hperm : (head :: ((nodes ++ [slot]) ++ slotsFrom size nmemb (slot + size))).Perm
          ((slot :: head :: nodes) ++ slotsFrom size nmemb (slot + size)) := by
        rw [← List.cons_append]
        refine List.Perm.append_right _ ?_
        exact ((List.perm_append_singleton slot nodes).cons head).trans (List.Perm.swap slot head _)
      have hplaced' : Placed 0 (slot :: head :: (nodes ++ [])) := by
        rw [List.append_nil]
        exact (hplaced.perm hperm).sublist (List.sublist_append_left _ _)
      have hring' : Ring mem 0 head (nodes ++ []) := by rwa [List.append_nil]
      have hlink : listAddTail mem 0 slot head = listInsert mem 0 slot (nodes.getLastD head) head :=
        listAddTail_eq hring' slot
      obtain ⟨hlinked, htouched⟩ := ring_insert hring' hplaced'
      have hnext : Ring (listAddTail mem 0 slot head) 0 head (nodes ++ [slot]) := by
        rw [hlink]
        exact hlinked
      obtain ⟨hall, hrest⟩ := ih hnext hplaced
      refine ⟨hall, ?_⟩
      refine Untouched.trans_of_subset (hlink ▸ htouched) hrest ?_ (List.Subset.refl _)
      intro obj hobj
      simp only [List.append_nil, List.mem_cons, List.mem_append] at hobj ⊢
      tauto

/-- An allocator that the calls accept: its words, and the slots they speak of. -/
structure Ready (mem : Mem) (allocator slotSize chunkMem chunkSize : Nat) : Prop where
  sizeWord : load32 mem allocator = slotSize
  memWord : load32 mem (slotChunkMemAt allocator) = chunkMem
  lengthWord : load32 mem (slotChunkSizeAt allocator) = chunkSize
  allocator_pos : 0 < allocator
  slotSize_pos : 0 < slotSize
  chunkMem_pos : 0 < chunkMem
  chunkSize_pos : 0 < chunkSize

section

variable {mem : Mem} {allocator slotSize chunkMem chunkSize : Nat}

theorem Ready.not_bad (hready : Ready mem allocator slotSize chunkMem chunkSize) :
    badSlotAllocator mem allocator = false := by
  obtain ⟨hsize, hchunk, hlength, h₁, h₂, h₃, h₄⟩ := hready
  simp only [badSlotAllocator, hsize, hchunk, hlength, Bool.or_eq_false_iff,
    decide_eq_false_iff_not]
  omega

/-- Without a free slot nothing is given out and nothing changes. -/
theorem slotMalloc_nil (hring : Ring mem 0 (freeHead allocator) []) (size : Nat) :
    slotMalloc mem allocator size = (0, mem) := by
  have hnext : nextOf mem 0 (freeHead allocator) = freeHead allocator := hring.1.1
  simp only [slotMalloc, hnext, if_true, ite_self]

/-- Otherwise the first free slot is given out and leaves the ring. -/
theorem slotMalloc_cons (hready : Ready mem allocator slotSize chunkMem chunkSize) {size : Nat}
    (hsize : 0 < size) (hfit : size ≤ slotSize) {slot : Nat} {free : List Nat}
    (hring : Ring mem 0 (freeHead allocator) (slot :: free))
    (hplaced : Placed 0 (freeHead allocator :: slot :: free)) :
    ∃ mem', slotMalloc mem allocator size = (slot, mem') ∧ Ring mem' 0 (freeHead allocator) free ∧
      Untouched mem mem' (freeHead allocator :: slot :: free) := by
  have hnext : nextOf mem 0 (freeHead allocator) = slot := hring.1.1
  have hne : slot ≠ freeHead allocator := by
    have hhead := (List.nodup_cons.mp hplaced.nodup).1
    exact fun heq => hhead (heq ▸ List.mem_cons_self)
  have hok : ¬ (size = 0 ∨ size > load32 mem allocator) := by
    rw [hready.sizeWord]
    omega
  refine ⟨listDel mem 0 slot, ?_, ?_⟩
  · rw [slotMalloc, hready.not_bad, if_neg (by decide), if_neg hok]
    simp only [hnext]
    rw [if_neg hne]
  · have hcut : Ring mem 0 (freeHead allocator) ([] ++ slot :: free) := hring
    exact ring_del hcut hplaced

/-- A slot of the chunk is put at the end of the ring. -/
theorem slotFree_spec (hready : Ready mem allocator slotSize chunkMem chunkSize)
    (htop : chunkMem + chunkSize < wordModulus) {unit : Nat} (hlow : chunkMem ≤ unit)
    (hhigh : unit < chunkMem + chunkSize) {free : List Nat}
    (hring : Ring mem 0 (freeHead allocator) free)
    (hplaced : Placed 0 (unit :: freeHead allocator :: free)) :
    Ring (slotFree mem allocator unit) 0 (freeHead allocator) (free ++ [unit]) ∧
      Untouched mem (slotFree mem allocator unit) (unit :: freeHead allocator :: free) := by
  have hend : addrPlus chunkMem chunkSize = chunkMem + chunkSize := Nat.mod_eq_of_lt htop
  have hpos := hready.chunkMem_pos
  have hnull : ¬ (badSlotAllocator mem allocator || unit = 0) = true := by
    rw [hready.not_bad, Bool.false_or, decide_eq_true_iff]
    omega
  have hinside : ¬ (unit ≥ addrPlus chunkMem chunkSize ∨ unit < chunkMem) := by
    rw [hend]
    omega
  have hring' : Ring mem 0 (freeHead allocator) (free ++ []) := by rwa [List.append_nil]
  have hplaced' : Placed 0 (unit :: freeHead allocator :: (free ++ [])) := by
    rwa [List.append_nil]
  have hfree : slotFree mem allocator unit =
      listInsert mem 0 unit (free.getLastD (freeHead allocator)) (freeHead allocator) := by
    rw [slotFree]
    simp only [hready.memWord, hready.lengthWord]
    rw [if_neg hnull, if_neg hinside]
    exact listAddTail_eq hring' unit
  rw [hfree]
  have hlinked := ring_insert hring' hplaced'
  simpa only [List.append_nil, List.headD_nil] using hlinked

end

/-- A head that points at itself is the ring without nodes. -/
theorem ring_initListHead (mem : Mem) {head : Nat} (hhead : head < wordModulus) :
    Ring (initListHead mem head) 0 head [] := by
  have hplain : ∀ addr, offsetNode 0 addr = addr % wordModulus := fun addr => by
    rw [offsetNode, zero_add]
  refine ⟨⟨?_, ?_⟩, trivial⟩
  · rw [nextOf, initListHead, load32_store32_of_apart (Or.inr le_rfl), load32_store32_same, hplain,
      Nat.mod_mod, Nat.mod_eq_of_lt hhead]
  · rw [prevOf, initListHead, load32_store32_same, hplain, Nat.mod_mod, Nat.mod_eq_of_lt hhead]

/-- A size that is a multiple of eight is not rounded. -/
theorem round_slotSize {slotSize : Nat} (haligned : slotSize % 8 = 0)
    (hsmall : slotSize + 8 ≤ wordModulus) :
    ((slotSize + 7) % wordModulus) &&& 0xFFFFFFF8 = slotSize := by
  rw [Nat.mod_eq_of_lt (by omega)]
  have hmask := land_mask_eq (show slotSize + 7 < wordModulus by omega) (show 3 ≤ 32 by omega)
  simp only [show 2 ^ 32 - 2 ^ 3 = 0xFFFFFFF8 by rfl] at hmask
  rw [hmask]
  omega

/-- The head of the free list and the slots of a chunk behind it do not overlap. -/
theorem placed_slots {allocator slotSize nmemb chunkMem : Nat}
    (hbelow : allocator + 20 ≤ chunkMem) (hsize : 8 ≤ slotSize)
    (htop : chunkMem + nmemb * slotSize ≤ wordModulus) :
    Placed 0 (freeHead allocator :: slotsFrom slotSize nmemb chunkMem) := by
  refine ⟨?_, List.pairwise_cons.mpr ⟨?_, ?_⟩⟩
  · intro obj hobj
    rcases List.mem_cons.mp hobj with rfl | hslot
    · simp only [freeHead]
      omega
    · have hinside := mem_slotsFrom hslot
      omega
  · intro slot hslot
    have hinside := mem_slotsFrom hslot
    exact Or.inl (by simp only [freeHead]; omega)
  · refine (slotsFrom_apart slotSize nmemb chunkMem).imp ?_
    intro first second hapart
    unfold Apart at hapart ⊢
    omega

/-- Changing links of slots and of the head leaves the other words of the
allocator alone. -/
theorem Ready.of_untouched {mem : Mem} {allocator slotSize chunkMem chunkSize : Nat}
    (hready : Ready mem allocator slotSize chunkMem chunkSize)
    (hbelow : allocator + 20 ≤ chunkMem) {mem' : Mem} {objs : List Nat}
    (huntouched : Untouched mem mem' objs)
    (hobjs : ∀ obj ∈ objs, obj = freeHead allocator ∨ chunkMem ≤ obj) :
    Ready mem' allocator slotSize chunkMem chunkSize := by
  have hword : ∀ addr, addr = allocator ∨ allocator + 12 ≤ addr → addr + 4 ≤ allocator + 20 →
      load32 mem' addr = load32 mem addr := by
    intro addr hlow hhigh
    refine load32_untouched huntouched fun obj hobj => ?_
    unfold Apart
    rcases hobjs obj hobj with rfl | hchunk
    · simp only [freeHead]
      omega
    · omega
  refine { hready with sizeWord := ?_, memWord := ?_, lengthWord := ?_ }
  · exact (hword _ (.inl rfl) (by omega)).trans hready.sizeWord
  · exact (hword (allocator + 12) (.inr le_rfl) (by omega)).trans hready.memWord
  · exact (hword (allocator + 16) (.inr (by omega)) le_rfl).trans hready.lengthWord

/-- The word of the slot size may be written again. -/
theorem Ready.store_size {mem : Mem} {allocator slotSize chunkMem chunkSize : Nat}
    (hready : Ready mem allocator slotSize chunkMem chunkSize) (hsmall : slotSize < wordModulus) :
    Ready (store32 mem allocator slotSize) allocator slotSize chunkMem chunkSize where
  __ := hready
  sizeWord := by rw [load32_store32_same, Nat.mod_eq_of_lt hsmall]
  memWord := by
    rw [load32_store32_of_apart (Or.inl (by simp only [slotChunkMemAt]; omega))]
    exact hready.memWord
  lengthWord := by
    rw [load32_store32_of_apart (Or.inl (by simp only [slotChunkSizeAt]; omega))]
    exact hready.lengthWord

/-- A size that needs no rounding: the slots of the chunk are linked one by one. -/
theorem initSlotAllocator_eq {mem : Mem} {allocator slotSize nmemb chunkMem : Nat}
    (hready : Ready mem allocator slotSize chunkMem (nmemb * slotSize))
    (haligned : slotSize % 8 = 0) (hsmall : slotSize + 8 ≤ wordModulus) :
    initSlotAllocator mem allocator = (0, store32 (addSlots (freeHead allocator) slotSize nmemb
      (initListHead mem (freeHead allocator)) chunkMem) allocator slotSize) := by
  have hpositive := hready.slotSize_pos
  have hsize : ¬ slotSize < sizeofFreeSlot := by
    rw [sizeofFreeSlot]
    omega
  have hnmemb : nmemb * slotSize / slotSize = nmemb := Nat.mul_div_cancel nmemb hpositive
  rw [initSlotAllocator, hready.not_bad, if_neg (by decide)]
  simp only [hready.sizeWord, hready.memWord, hready.lengthWord, round_slotSize haligned hsmall,
    if_neg hsize, hnmemb]

/-- `init_slot_allocator` for slots of a size that needs no rounding: all slots of
the chunk are free. -/
theorem initSlotAllocator_spec {mem : Mem} {allocator slotSize nmemb chunkMem : Nat}
    (hready : Ready mem allocator slotSize chunkMem (nmemb * slotSize))
    (haligned : slotSize % 8 = 0) (hsmall : slotSize + 8 ≤ wordModulus)
    (hbelow : allocator + 20 ≤ chunkMem) (htop : chunkMem + nmemb * slotSize ≤ wordModulus) :
    ∃ mem', initSlotAllocator mem allocator = (0, mem') ∧
      Ring mem' 0 (freeHead allocator) (slotsFrom slotSize nmemb chunkMem) ∧
      Ready mem' allocator slotSize chunkMem (nmemb * slotSize) ∧
      Untouched mem mem'
        (allocator :: freeHead allocator :: slotsFrom slotSize nmemb chunkMem) := by
  have hpositive := hready.slotSize_pos
  have hcount := hready.chunkSize_pos
  have hempty := ring_initListHead mem (show freeHead allocator < wordModulus by
    rw [freeHead]
    omega)
  obtain ⟨hring, huntouched⟩ := addSlots_spec hempty
    (placed_slots hbelow (show 8 ≤ slotSize by omega) htop)
  rw [List.nil_append] at hring huntouched
  let linked :=
    addSlots (freeHead allocator) slotSize nmemb (initListHead mem (freeHead allocator)) chunkMem
  have hlinked : Untouched mem linked
    (freeHead allocator :: slotsFrom slotSize nmemb chunkMem) := by
    intro addr haddr
    have hhead := haddr (freeHead allocator) List.mem_cons_self
    have hinit : initListHead mem (freeHead allocator) addr = mem addr := by
      rw [initListHead, store32_apply (by omega), store32_apply (by omega)]
    exact (huntouched addr haddr).trans hinit
  refine ⟨store32 linked allocator slotSize, initSlotAllocator_eq hready haligned hsmall,
    ?_, ?_, ?_⟩
  · -- the links lie behind the word of the slot size
    refine ring_congr ?_ hring
    intro obj hobj
    apply store32_sameOn
    rcases List.mem_cons.mp hobj with rfl | hslot
    · exact Or.inl (by rw [freeHead])
    · have hinside := mem_slotsFrom hslot
      exact Or.inl (by omega)
  · refine (hready.of_untouched hbelow hlinked ?_).store_size (by omega)
    intro obj hobj
    exact (List.mem_cons.mp hobj).imp_right fun hslot => (mem_slotsFrom hslot).1
  · intro addr haddr
    have hself := haddr allocator List.mem_cons_self
    rw [store32_apply (by omega)]
    exact hlinked addr fun obj hobj => haddr obj (List.mem_cons_of_mem _ hobj)

/-- Where an allocator and its chunk lie: the chunk is behind the allocator and
does not reach the end of the address space, and a slot has room for links. -/
structure Laid (allocator slotSize nmemb chunkMem : Nat) : Prop where
  below : allocator + 20 ≤ chunkMem
  size : 8 ≤ slotSize
  top : chunkMem + nmemb * slotSize < wordModulus

/-- The slots of the chunk are free or out, each in one place. -/
structure Shared (mem : Mem) (allocator slotSize nmemb chunkMem : Nat) (free out : List Nat) :
    Prop where
  ready : Ready mem allocator slotSize chunkMem (nmemb * slotSize)
  ring : Ring mem 0 (freeHead allocator) free
  slots : (free ++ out).Perm (slotsFrom slotSize nmemb chunkMem)

section

variable {mem : Mem} {allocator slotSize nmemb chunkMem : Nat} {free out : List Nat}

theorem slotsFrom_nodup (size nmemb start : Nat) (hsize : 0 < size) :
    (slotsFrom size nmemb start).Nodup := by
  refine (slotsFrom_apart size nmemb start).imp ?_
  rintro first second hapart rfl
  unfold Apart at hapart
  omega

theorem Laid.placed (hlaid : Laid allocator slotSize nmemb chunkMem) :
    Placed 0 (freeHead allocator :: slotsFrom slotSize nmemb chunkMem) :=
  placed_slots hlaid.below hlaid.size hlaid.top.le

theorem Shared.nodup (hshared : Shared mem allocator slotSize nmemb chunkMem free out) :
    (free ++ out).Nodup :=
  hshared.slots.nodup_iff.mpr (slotsFrom_nodup _ _ _ hshared.ready.slotSize_pos)

theorem Shared.mem_slots (hshared : Shared mem allocator slotSize nmemb chunkMem free out)
    {slot : Nat} (hslot : slot ∈ free ++ out) : slot ∈ slotsFrom slotSize nmemb chunkMem :=
  hshared.slots.mem_iff.mp hslot

theorem Shared.perm (hshared : Shared mem allocator slotSize nmemb chunkMem free out)
    {out' : List Nat} (hperm : out.Perm out') :
    Shared mem allocator slotSize nmemb chunkMem free out' :=
  { hshared with slots := (hperm.symm.append_left free).trans hshared.slots }

/-- The first free slot goes out. -/
theorem Shared.slotMalloc {slot : Nat}
    (hshared : Shared mem allocator slotSize nmemb chunkMem (slot :: free) out)
    (hlaid : Laid allocator slotSize nmemb chunkMem) :
    ∃ mem', slotMalloc mem allocator slotSize = (slot, mem') ∧
      Shared mem' allocator slotSize nmemb chunkMem free (slot :: out) := by
  have hall : ∀ obj ∈ slot :: free, obj ∈ slotsFrom slotSize nmemb chunkMem := fun obj hobj =>
    hshared.mem_slots (List.mem_append_left _ hobj)
  have hplaced : Placed 0 (freeHead allocator :: slot :: free) :=
    (hlaid.placed.perm (hshared.slots.symm.cons _)).sublist
      ((List.sublist_append_left _ _).cons_cons _)
  obtain ⟨mem', hmalloc, hring, huntouched⟩ :=
    slotMalloc_cons hshared.ready hshared.ready.slotSize_pos le_rfl hshared.ring hplaced
  refine ⟨mem', hmalloc, ?_, hring, List.perm_middle.trans hshared.slots⟩
  refine hshared.ready.of_untouched hlaid.below huntouched fun obj hobj => ?_
  rcases List.mem_cons.mp hobj with rfl | hslot
  · exact Or.inl rfl
  · exact Or.inr (mem_slotsFrom (hall obj hslot)).1

/-- A slot that is out comes back as the last free one. -/
theorem Shared.slotFree {unit : Nat}
    (hshared : Shared mem allocator slotSize nmemb chunkMem free (unit :: out))
    (hlaid : Laid allocator slotSize nmemb chunkMem) :
    Shared (slotFree mem allocator unit) allocator slotSize nmemb chunkMem
      (free ++ [unit]) out := by
  have hunit := mem_slotsFrom (hshared.mem_slots
    (List.mem_append_right free (List.mem_cons_self (a := unit) (l := out))))
  have hsize := hlaid.size
  have hperm : (unit :: free ++ out).Perm (slotsFrom slotSize nmemb chunkMem) :=
    List.perm_middle.symm.trans hshared.slots
  have hplaced : Placed 0 (unit :: freeHead allocator :: free) := by
    refine Placed.perm ?_ (List.Perm.swap unit (freeHead allocator) free)
    exact (hlaid.placed.perm (hperm.symm.cons _)).sublist
      ((List.sublist_append_left _ _).cons_cons _)
  obtain ⟨hring, huntouched⟩ := slotFree_spec hshared.ready hlaid.top hunit.1 (by omega)
    hshared.ring hplaced
  refine ⟨?_, hring, ?_⟩
  · refine hshared.ready.of_untouched hlaid.below huntouched fun obj hobj => ?_
    rcases List.mem_cons.mp hobj with rfl | hobj
    · exact Or.inr hunit.1
    · rcases List.mem_cons.mp hobj with rfl | hfree
      · exact Or.inl rfl
      · exact Or.inr (mem_slotsFrom (hshared.mem_slots (List.mem_append_left _ hfree))).1
  · rw [List.append_assoc, List.singleton_append]
    exact hshared.slots

end

end McuProxy.Ckits.Slot
