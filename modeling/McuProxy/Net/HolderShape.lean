/-
# The memory of the socket holder

The invariant of the holder divides the slots of its array between the queue, the
free list and, inside a call, the items that are on neither. The links of the
queue and those of the free list lie at different offsets of a slot and overlap,
so each operation is described by the ring it changes and by the bytes it leaves
alone; the members behind the links are touched by no ring.
-/

import McuProxy.Net.Holder

namespace McuProxy.Net.Holder

open McuProxy.Memory McuProxy.Ckits.Slot McuProxy.Ckits.Pool McuProxy.Math

/-- All items of `mArray`. -/
def allSlots (holder : Nat) : List Nat := slotsFrom sizeofSocketItem containerLimit (arrayAt holder)

/-- A place for a holder in the address space. -/
structure Located (holder : Nat) : Prop where
  pos : 0 < holder
  top : holder + 1244 < wordModulus

/-- The items in the queue, the free slots, and the items on neither. -/
structure Shape (mem : Mem) (holder : Nat) (items free loose : List Nat) : Prop where
  queue : Ring mem 4 (prevAt holder) (items.map prevAt).reverse
  ring : Ring mem 0 (freeHead (allocAt holder)) free
  ready : Ready mem (allocAt holder) sizeofSocketItem (arrayAt holder)
    (containerLimit * sizeofSocketItem)
  slots : (items ++ free ++ loose).Perm (allSlots holder)

/-- The members behind the links are the same in two memories. -/
def SameFields (mem mem' : Mem) (slots : List Nat) : Prop :=
  ∀ slot ∈ slots, SameOn mem mem' (slot + 12) (slot + 24)

theorem SameFields.trans {first second third : Mem} {slots : List Nat}
    (hfirst : SameFields first second slots) (hsecond : SameFields second third slots) :
    SameFields first third slots := fun slot hslot => (hfirst slot hslot).trans (hsecond slot hslot)

theorem SameFields.subset {mem mem' : Mem} {slots slots' : List Nat}
    (hfields : SameFields mem mem' slots) (hsub : slots' ⊆ slots) : SameFields mem mem' slots' :=
  fun slot hslot => hfields slot (hsub hslot)

theorem fdOf_congr {mem mem' : Mem} {item : Nat} (hsame : SameOn mem mem' (item + 12) (item + 24)) :
    fdOf mem' item = fdOf mem item := by
  rw [fdOf, fdOf, fdAt, load32_congr (hsame.mono le_rfl (by omega))]

theorem entryOf_congr {mem mem' : Mem} {item : Nat}
    (hsame : SameOn mem mem' (item + 12) (item + 24)) : entryOf mem' item = entryOf mem item := by
  rw [entryOf, entryOf, instAt, refAt, load32_congr (hsame.mono (by omega) (by omega)),
    load32_congr (hsame.mono (by omega) (by omega))]

/-! ## The places of the slots -/

theorem mem_allSlots {holder slot : Nat} (hslot : slot ∈ allSlots holder) :
    holder + 44 ≤ slot ∧ slot + 24 ≤ holder + 1244 := by
  have hinside := mem_slotsFrom hslot
  simp only [arrayAt, sizeofSocketItem, containerLimit] at hinside
  omega

section

variable {mem mem' : Mem} {holder : Nat} {items free loose : List Nat}

theorem Shape.range (hshape : Shape mem holder items free loose) {slot : Nat}
    (hslot : slot ∈ items ++ free ++ loose) : holder + 44 ≤ slot ∧ slot + 24 ≤ holder + 1244 :=
  mem_allSlots (hshape.slots.mem_iff.mp hslot)

theorem Shape.apart (hshape : Shape mem holder items free loose) :
    (items ++ free ++ loose).Pairwise fun first second => Apart first 24 second 24 :=
  (slotsFrom_apart sizeofSocketItem containerLimit (arrayAt holder)).perm hshape.slots.symm Or.symm

/-- Slots of different lists do not overlap. -/
theorem Shape.apart_of_ne (hshape : Shape mem holder items free loose) {first second : Nat}
    (hfirst : first ∈ items ++ free ++ loose) (hsecond : second ∈ items ++ free ++ loose)
    (hne : first ≠ second) : Apart first 24 second 24 :=
  hshape.apart.forall hfirst hsecond hne

theorem Shape.nodup (hshape : Shape mem holder items free loose) :
    (items ++ free ++ loose).Nodup := by
  refine hshape.apart.imp ?_
  rintro first second hapart rfl
  unfold Apart at hapart
  omega

/-- The pairs of links in the queue, with any slots of the array. -/
theorem placed_queue (hlocated : Located holder) {slots : List Nat}
    (hrange : ∀ slot ∈ slots, holder + 44 ≤ slot ∧ slot + 24 ≤ holder + 1244)
    (hapart : slots.Pairwise fun first second => Apart first 24 second 24) :
    Placed 4 (prevAt holder :: slots.map prevAt) := by
  have htop := hlocated.top
  refine ⟨?_, List.pairwise_cons.mpr ⟨?_, ?_⟩⟩
  · intro obj hobj
    rcases List.mem_cons.mp hobj with rfl | hmem
    · rw [prevAt]
      omega
    · obtain ⟨slot, hslot, rfl⟩ := List.mem_map.mp hmem
      have hbounds := hrange slot hslot
      rw [prevAt]
      omega
  · intro obj hobj
    obtain ⟨slot, hslot, rfl⟩ := List.mem_map.mp hobj
    have hbounds := hrange slot hslot
    exact Or.inl (by simp only [prevAt]; omega)
  · refine List.pairwise_map.mpr (hapart.imp ?_)
    intro first second h
    unfold Apart at h ⊢
    simp only [prevAt]
    omega

/-- The links in the free list, with any slots of the array. -/
theorem placed_free (hlocated : Located holder) {slots : List Nat}
    (hrange : ∀ slot ∈ slots, holder + 44 ≤ slot ∧ slot + 24 ≤ holder + 1244)
    (hapart : slots.Pairwise fun first second => Apart first 24 second 24) :
    Placed 0 (freeHead (allocAt holder) :: slots) := by
  have htop := hlocated.top
  refine ⟨?_, List.pairwise_cons.mpr ⟨?_, ?_⟩⟩
  · intro obj hobj
    rcases List.mem_cons.mp hobj with rfl | hslot
    · simp only [freeHead, allocAt]
      omega
    · have hbounds := hrange obj hslot
      omega
  · intro slot hslot
    have hbounds := hrange slot hslot
    exact Or.inl (by simp only [freeHead, allocAt]; omega)
  · refine hapart.imp ?_
    intro first second h
    unfold Apart at h ⊢
    omega

/-! ## What a change of one ring leaves alone -/

/-- The words of the allocator lie between the two heads. -/
theorem ready_congr {chunkSize : Nat} (hsize : SameOn mem mem' (holder + 24) (holder + 28))
    (hchunk : SameOn mem mem' (holder + 36) (holder + 44))
    (hready : Ready mem (allocAt holder) sizeofSocketItem (arrayAt holder) chunkSize) :
    Ready mem' (allocAt holder) sizeofSocketItem (arrayAt holder) chunkSize := by
  refine { hready with sizeWord := ?_, memWord := ?_, lengthWord := ?_ }
  · exact (load32_congr hsize).trans hready.sizeWord
  · rw [slotChunkMemAt, load32_congr (hchunk.mono (by simp only [allocAt]; omega)
      (by simp only [allocAt]; omega))]
    exact hready.memWord
  · rw [slotChunkSizeAt, load32_congr (hchunk.mono (by simp only [allocAt]; omega)
      (by simp only [allocAt]; omega))]
    exact hready.lengthWord

/-- A change in the words before the slots and in the links of slots leaves the fields
of the items alone. -/
theorem Shape.sameFields (hshape : Shape mem holder items free loose) {objs : List Nat}
    (huntouched : Untouched mem mem' objs)
    (hobjs : ∀ obj ∈ objs, obj + 8 ≤ holder + 44 ∨
      ∃ slot ∈ items ++ free ++ loose, obj = slot ∨ obj = prevAt slot) :
    SameFields mem mem' (allSlots holder) := by
  intro slot hslot addr hlow hhigh
  have hmem := hshape.slots.mem_iff.mpr hslot
  have hbounds := mem_allSlots hslot
  apply huntouched
  intro obj hobj
  rcases hobjs obj hobj with hbelow | ⟨other, hother, hlink⟩
  · omega
  · simp only [prevAt] at hlink
    by_cases heq : other = slot
    · omega
    · have hdistinct := hshape.apart_of_ne hother hmem heq
      unfold Apart at hdistinct
      omega

/-- A change in the links of the free list and of items that are on no ring. -/
theorem Shape.of_free_change (hshape : Shape mem holder items free loose) {objs : List Nat}
    (huntouched : Untouched mem mem' objs)
    (hobjs : ∀ obj ∈ objs, obj = freeHead (allocAt holder) ∨ obj ∈ free ++ loose)
    {free' loose' : List Nat} (hring : Ring mem' 0 (freeHead (allocAt holder)) free')
    (hperm : (free' ++ loose').Perm (free ++ loose)) :
    Shape mem' holder items free' loose' ∧ SameFields mem mem' (allSlots holder) := by
  have hapart := hshape.apart
  rw [List.append_assoc, List.pairwise_append] at hapart
  have hother : ∀ obj ∈ objs, obj = holder + 28 ∨ obj ∈ free ++ loose ∧ holder + 44 ≤ obj := by
    intro obj hobj
    rcases hobjs obj hobj with rfl | hslot
    · exact Or.inl rfl
    · refine Or.inr ⟨hslot, (hshape.range ?_).1⟩
      rw [List.append_assoc]
      exact List.mem_append_right _ hslot
  have hbelow : ∀ addr, addr < holder + 28 ∨ holder + 36 ≤ addr → addr < holder + 44 →
      mem' addr = mem addr := by
    intro addr hhead hlow
    apply huntouched
    intro obj hobj
    rcases hother obj hobj with rfl | ⟨-, hbound⟩ <;> omega
  refine ⟨⟨?_, hring, ?_, ?_⟩, ?_⟩
  · refine ring_congr ?_ hshape.queue
    intro link hlink
    rw [List.mem_cons, List.mem_reverse] at hlink
    rcases hlink with rfl | hmem
    · intro addr hlow hhigh
      simp only [prevAt] at hlow hhigh
      exact hbelow addr (by omega) (by omega)
    · obtain ⟨item, hitem, rfl⟩ := List.mem_map.mp hmem
      have hrange := hshape.range (List.mem_append_left _ (List.mem_append_left _ hitem))
      intro addr hlow hhigh
      simp only [prevAt] at hlow hhigh
      apply huntouched
      intro obj hobj
      rcases hother obj hobj with rfl | ⟨hslot, -⟩
      · omega
      · have hdistinct := hapart.2.2 item hitem obj hslot
        unfold Apart at hdistinct
        omega
  · refine ready_congr ?_ ?_ hshape.ready
    · intro addr hlow hhigh
      exact hbelow addr (by omega) (by omega)
    · intro addr hlow hhigh
      exact hbelow addr (by omega) (by omega)
  · refine List.Perm.trans ?_ hshape.slots
    rw [List.append_assoc, List.append_assoc]
    exact hperm.append_left items
  · refine hshape.sameFields huntouched fun obj hobj => ?_
    rcases hobjs obj hobj with rfl | hslot
    · exact Or.inl (by simp only [freeHead, allocAt]; omega)
    · refine Or.inr ⟨obj, ?_, Or.inl rfl⟩
      rw [List.append_assoc]
      exact List.mem_append_right _ hslot

/-- A change in the links of the queue and of items that are on no ring. -/
theorem Shape.of_queue_change (hshape : Shape mem holder items free loose) {objs : List Nat}
    (huntouched : Untouched mem mem' objs)
    (hobjs : ∀ obj ∈ objs, obj = prevAt holder ∨ ∃ slot ∈ items ++ loose, obj = prevAt slot)
    {items' loose' : List Nat}
    (hqueue : Ring mem' 4 (prevAt holder) (items'.map prevAt).reverse)
    (hperm : (items' ++ loose').Perm (items ++ loose)) :
    Shape mem' holder items' free loose' ∧ SameFields mem mem' (allSlots holder) := by
  have hshuffle : ∀ first second third : List Nat,
      (first ++ second ++ third).Perm ((first ++ third) ++ second) := by
    intro first second third
    rw [List.append_assoc, List.append_assoc]
    exact List.perm_append_comm.append_left first
  have hapart := hshape.apart.perm (hshuffle items free loose) Or.symm
  rw [List.pairwise_append] at hapart
  have hmember : ∀ slot ∈ items ++ loose, slot ∈ items ++ free ++ loose := fun slot hslot =>
    (hshuffle items free loose).mem_iff.mpr (List.mem_append_left _ hslot)
  have hother : ∀ obj ∈ objs, obj = holder + 4 ∨
      ∃ slot ∈ items ++ loose, obj = slot + 4 ∧ holder + 44 ≤ slot := by
    intro obj hobj
    rcases hobjs obj hobj with rfl | ⟨slot, hslot, rfl⟩
    · exact Or.inl rfl
    · exact Or.inr ⟨slot, hslot, rfl, (hshape.range (hmember slot hslot)).1⟩
  have hbelow : ∀ addr, holder + 12 ≤ addr → addr < holder + 44 → mem' addr = mem addr := by
    intro addr hhead hlow
    apply huntouched
    intro obj hobj
    rcases hother obj hobj with rfl | ⟨slot, -, rfl, hbound⟩ <;> omega
  refine ⟨⟨hqueue, ?_, ?_, ?_⟩, ?_⟩
  · refine ring_congr ?_ hshape.ring
    intro link hlink
    rcases List.mem_cons.mp hlink with rfl | hfree
    · intro addr hlow hhigh
      simp only [freeHead, allocAt] at hlow hhigh
      exact hbelow addr (by omega) (by omega)
    · have hrange := hshape.range (List.mem_append_left _ (List.mem_append_right _ hfree))
      intro addr hlow hhigh
      apply huntouched
      intro obj hobj
      rcases hother obj hobj with rfl | ⟨slot, hslot, rfl, -⟩
      · omega
      · have hdistinct := hapart.2.2 slot hslot link hfree
        unfold Apart at hdistinct
        omega
  · refine ready_congr ?_ ?_ hshape.ready
    · intro addr hlow hhigh
      exact hbelow addr (by omega) (by omega)
    · intro addr hlow hhigh
      exact hbelow addr (by omega) (by omega)
  · refine (hshuffle items' free loose').trans (List.Perm.trans ?_ hshape.slots)
    exact (hperm.append_right free).trans (hshuffle items free loose).symm
  · refine hshape.sameFields huntouched fun obj hobj => ?_
    rcases hobjs obj hobj with rfl | ⟨slot, hslot, rfl⟩
    · exact Or.inl (by simp only [prevAt]; omega)
    · exact Or.inr ⟨slot, hmember slot hslot, Or.inr rfl⟩

/-! ## The links of the queue -/

theorem headD_map_prevAt (slots : List Nat) (holder : Nat) :
    (slots.map prevAt).headD (prevAt holder) = prevAt (slots.headD holder) := by
  cases slots with
  | nil => rfl
  | cons slot slots => rfl

theorem getLastD_map_prevAt (slots : List Nat) (holder : Nat) :
    (slots.map prevAt).getLastD (prevAt holder) = prevAt (slots.getLastD holder) := by
  induction slots generalizing holder with
  | nil => rfl
  | cons slot slots ih =>
      rw [List.map_cons, List.getLastD_cons, List.getLastD_cons]
      exact ih slot

theorem getLastD_reverse (slots : List Nat) (holder : Nat) :
    slots.reverse.getLastD holder = slots.headD holder := by
  rw [List.getLastD_eq_getLast?, List.getLast?_reverse, List.headD_eq_head?_getD]

theorem headD_reverse (slots : List Nat) (holder : Nat) :
    slots.reverse.headD holder = slots.getLastD holder := by
  rw [List.getLastD_eq_getLast?, List.headD_eq_head?_getD, List.head?_reverse]

/-- A link relative to base 4 that leads to a pair of links is the address of the
item. -/
theorem eq_of_offsetNode {word slot : Nat} (hword : word < wordModulus)
    (hlink : offsetNode 4 word = prevAt slot) : word = slot := by
  simp only [offsetNode, prevAt, wordModulus] at *
  omega

/-- The two items on either side of a cut point at each other. -/
theorem Shape.linked {pre post : List Nat} (hshape : Shape mem holder (pre ++ post) free loose) :
    load32 mem (nextAt (pre.getLastD holder)) = post.headD holder ∧
      load32 mem (prevAt (post.headD holder)) = pre.getLastD holder := by
  have hring := hshape.queue
  rw [List.map_append, List.reverse_append] at hring
  have hlinked := ring_linked hring
  rw [getLastD_reverse, headD_reverse, headD_map_prevAt, getLastD_map_prevAt] at hlinked
  exact ⟨eq_of_offsetNode (load32_lt _ _) hlinked.2, eq_of_offsetNode (load32_lt _ _) hlinked.1⟩

theorem Shape.next_eq {pre post : List Nat} {cursor : Nat}
    (hshape : Shape mem holder (pre ++ cursor :: post) free loose) :
    load32 mem (nextAt cursor) = post.headD holder := by
  have hcut : Shape mem holder ((pre ++ [cursor]) ++ post) free loose := by
    rw [List.append_assoc, List.singleton_append]
    exact hshape
  have hlinked := hcut.linked.1
  rwa [List.getLastD_concat] at hlinked

/-! ## The operations on the two rings -/

/-- `slot_malloc` takes the first free slot out of the free list. -/
theorem Shape.slotMalloc {slot : Nat} (hlocated : Located holder)
    (hshape : Shape mem holder items (slot :: free) loose) :
    ∃ mem', slotMalloc mem (allocAt holder) sizeofSocketItem = (slot, mem') ∧
      Shape mem' holder items free (slot :: loose) ∧ SameFields mem mem' (allSlots holder) := by
  have hmember : ∀ obj ∈ slot :: free, obj ∈ items ++ (slot :: free) ++ loose := fun obj hobj =>
    List.mem_append_left _ (List.mem_append_right _ hobj)
  have hplaced := placed_free hlocated (fun obj hobj => hshape.range (hmember obj hobj))
    ((List.pairwise_append.mp (List.pairwise_append.mp hshape.apart).1).2.1)
  obtain ⟨mem', hmalloc, hring, huntouched⟩ :=
    slotMalloc_cons hshape.ready (by decide) le_rfl hshape.ring hplaced
  refine ⟨mem', hmalloc, ?_⟩
  refine hshape.of_free_change huntouched ?_ hring List.perm_middle
  intro obj hobj
  rcases List.mem_cons.mp hobj with rfl | hslot
  · exact Or.inl rfl
  · exact Or.inr (List.mem_append_left _ hslot)

/-- `slot_free` puts an item that is on no ring at the end of the free list. -/
theorem Shape.slotFree {unit : Nat} (hlocated : Located holder)
    (hshape : Shape mem holder items free (unit :: loose)) :
    Shape (slotFree mem (allocAt holder) unit) holder items (free ++ [unit]) loose ∧
      SameFields mem (slotFree mem (allocAt holder) unit) (allSlots holder) := by
  have hmember : ∀ obj ∈ unit :: free, obj ∈ items ++ free ++ unit :: loose := by
    intro obj hobj
    simp only [List.mem_append, List.mem_cons] at hobj ⊢
    tauto
  have hperm : (free ++ unit :: loose).Perm (unit :: free ++ loose) := List.perm_middle
  have hapart : (unit :: free).Pairwise fun first second => Apart first 24 second 24 := by
    have hall := hshape.apart
    rw [List.append_assoc] at hall
    exact (List.pairwise_append.mp
      ((List.pairwise_append.mp hall).2.1.perm hperm Or.symm)).1
  have hplaced := (placed_free hlocated (fun obj hobj => hshape.range (hmember obj hobj))
    hapart).perm (List.Perm.swap unit (freeHead (allocAt holder)) free)
  have hbounds := hshape.range (hmember unit List.mem_cons_self)
  have htop := hlocated.top
  obtain ⟨hring, huntouched⟩ := slotFree_spec hshape.ready
    (by simp only [arrayAt, containerLimit, sizeofSocketItem]; omega)
    (show arrayAt holder ≤ unit from hbounds.1)
    (by simp only [arrayAt, containerLimit, sizeofSocketItem]; omega) hshape.ring hplaced
  refine hshape.of_free_change huntouched ?_ hring (by simp)
  intro obj hobj
  rcases List.mem_cons.mp hobj with rfl | hobj
  · exact Or.inr (List.mem_append_right _ List.mem_cons_self)
  · rcases List.mem_cons.mp hobj with rfl | hfree
    · exact Or.inl rfl
    · exact Or.inr (List.mem_append_left _ hfree)

/-- The pairs of links of the items of a queue and of a part of the others. -/
theorem Shape.placed_items (hlocated : Located holder)
    (hshape : Shape mem holder items free loose) :
    Placed 4 ((holder :: (items ++ loose)).map prevAt) := by
  have hsub : ∀ slot ∈ items ++ loose, slot ∈ items ++ free ++ loose := by
    intro slot hslot
    simp only [List.mem_append] at hslot ⊢
    tauto
  refine placed_queue hlocated (fun slot hslot => hshape.range (hsub slot hslot)) ?_
  refine hshape.apart.sublist ?_
  rw [List.append_assoc]
  exact (List.sublist_append_right free loose).append_left items

theorem offsetPointer_prevAt {slot : Nat} (htop : prevAt slot + 8 ≤ wordModulus) :
    offsetPointer (prevAt slot) 4 = slot := by
  rw [prevAt] at htop ⊢
  rw [offsetPointer, subWord_eq (by omega) (by omega)]
  omega

theorem offsetNode_four {slot : Nat} (htop : prevAt slot + 8 ≤ wordModulus) :
    offsetNode 4 slot = prevAt slot := by
  rw [prevAt] at htop ⊢
  rw [offsetNode, Nat.mod_eq_of_lt (by omega), Nat.add_comm]

theorem Shape.link_range (hlocated : Located holder) (hshape : Shape mem holder items free loose)
    {slot : Nat} (hslot : slot ∈ holder :: (items ++ loose)) : prevAt slot + 8 ≤ wordModulus :=
  ((hshape.placed_items hlocated).range _ (List.mem_map_of_mem hslot)).2

theorem Shape.link_apart (hlocated : Located holder) (hshape : Shape mem holder items free loose)
    {first second : Nat} (hfirst : first ∈ holder :: (items ++ loose))
    (hsecond : second ∈ holder :: (items ++ loose)) (hne : first ≠ second) :
    Apart (prevAt first) 8 (prevAt second) 8 :=
  (hshape.placed_items hlocated).apart_of_ne (List.mem_map_of_mem hfirst)
    (List.mem_map_of_mem hsecond) fun heq => hne (Nat.add_right_cancel heq)

/-- Seen from the links, unlinking an item is unlinking an object of a ring. -/
theorem unlinkItem_eq {cursor prev next : Nat} (hprev : load32 mem (prevAt cursor) = prev)
    (hnext : load32 mem (nextAt cursor) = next) (hprevTop : prevAt prev + 8 ≤ wordModulus)
    (hnextTop : prevAt next + 8 ≤ wordModulus) (hcursor : Apart (prevAt cursor) 8 (prevAt next) 8)
    (hpair : prev = next ∨ Apart (prevAt prev) 8 (prevAt next) 8) :
    unlinkItem mem cursor = listUnlink mem 4 (prevAt cursor) := by
  have hforward : prevOf mem 4 (prevAt cursor) = prevAt next := by
    rw [prevOf, show prevAt cursor + 4 = nextAt cursor from rfl, hnext, offsetNode_four hnextTop]
  have hback : nextOf mem 4 (prevAt cursor) = prevAt prev := by
    rw [nextOf, hprev, offsetNode_four hprevTop]
  have hkeep : ∀ addr, prevAt cursor ≤ addr → addr + 4 ≤ prevAt cursor + 8 →
      load32 (store32 mem (prevAt next) prev) addr = load32 mem addr := by
    intro addr hlow hhigh
    unfold Apart at hcursor
    refine load32_store32_of_apart ?_
    unfold Apart
    omega
  have hcomm : Apart (prevAt next) 4 (nextAt prev) 4 := by
    unfold Apart at hpair ⊢
    simp only [prevAt, nextAt] at hpair ⊢
    omega
  calc unlinkItem mem cursor
      = store32 (store32 mem (prevAt next) prev) (nextAt prev) next := by
        rw [unlinkItem, hnext, hprev, hkeep (prevAt cursor) le_rfl (by omega),
          hkeep (nextAt cursor) (by simp only [prevAt, nextAt]; omega)
            (by simp only [prevAt, nextAt]; omega), hprev, hnext]
    _ = store32 (store32 mem (nextAt prev) next) (prevAt next) prev := store32_comm mem _ _ hcomm
    _ = listUnlink mem 4 (prevAt cursor) := by
        rw [listUnlink, hforward, hback, offsetPointer_prevAt hnextTop,
          offsetPointer_prevAt hprevTop]
        rfl

/-- The first two statements of `removeItem` take an item out of the queue. -/
theorem Shape.unlinkItem {cursor : Nat} {pre post : List Nat} (hlocated : Located holder)
    (hshape : Shape mem holder (pre ++ cursor :: post) free loose) :
    Shape (unlinkItem mem cursor) holder (pre ++ post) free (cursor :: loose) ∧
      SameFields mem (unlinkItem mem cursor) (allSlots holder) := by
  have hnext : load32 mem (nextAt cursor) = post.headD holder := hshape.next_eq
  have hprev : load32 mem (prevAt cursor) = pre.getLastD holder := hshape.linked.2
  have hsub : holder :: (pre ++ post) ⊆ holder :: ((pre ++ cursor :: post) ++ loose) := by
    refine List.cons_subset_cons holder (List.Subset.trans ?_ (List.subset_append_left _ _))
    exact ((List.sublist_cons_self cursor post).append_left pre).subset
  have hcursor : cursor ∈ holder :: ((pre ++ cursor :: post) ++ loose) := by simp
  have hne : cursor ≠ post.headD holder := by
    have hnodup := (hshape.placed_items hlocated).nodup.of_map
    have hperm : (holder :: ((pre ++ cursor :: post) ++ loose)).Perm
        (cursor :: (holder :: (pre ++ post) ++ loose)) := by
      refine (List.Perm.cons holder (List.perm_middle.append_right loose)).trans ?_
      exact List.Perm.swap cursor holder _
    have hout := (List.nodup_cons.mp (hperm.nodup_iff.mp hnodup)).1
    exact fun heq => hout (heq ▸ List.mem_append_left _ (headD_mem_ring holder pre post))
  have hprevMem := hsub (getLastD_mem_ring holder pre post)
  have hnextMem := hsub (headD_mem_ring holder pre post)
  have hpair : pre.getLastD holder = post.headD holder ∨
      Apart (prevAt (pre.getLastD holder)) 8 (prevAt (post.headD holder)) 8 := by
    by_cases heq : pre.getLastD holder = post.headD holder
    · exact Or.inl heq
    · exact Or.inr (hshape.link_apart hlocated hprevMem hnextMem heq)
  rw [unlinkItem_eq hprev hnext (hshape.link_range hlocated hprevMem)
    (hshape.link_range hlocated hnextMem) (hshape.link_apart hlocated hcursor hnextMem hne) hpair]
  have hqueue := hshape.queue
  have hmirror : ((pre ++ cursor :: post).map prevAt).reverse =
      (post.map prevAt).reverse ++ prevAt cursor :: (pre.map prevAt).reverse := by
    simp
  rw [hmirror] at hqueue
  have hplaced : Placed 4 (prevAt holder ::
      ((post.map prevAt).reverse ++ prevAt cursor :: (pre.map prevAt).reverse)) := by
    rw [← hmirror]
    refine ((hshape.placed_items hlocated).sublist ?_).perm
      ((List.reverse_perm _).symm.cons (prevAt holder))
    exact ((List.sublist_append_left _ loose).map prevAt).cons_cons (prevAt holder)
  obtain ⟨hring, huntouched⟩ := ring_unlink hqueue hplaced
  have hmirror' : (post.map prevAt).reverse ++ (pre.map prevAt).reverse =
      ((pre ++ post).map prevAt).reverse := by
    simp
  rw [hmirror'] at hring huntouched
  refine hshape.of_queue_change huntouched ?_ hring ?_
  · intro obj hobj
    rw [List.mem_cons, List.mem_reverse] at hobj
    rcases hobj with rfl | hobj
    · exact Or.inl rfl
    · obtain ⟨slot, hslot, rfl⟩ := List.mem_map.mp hobj
      refine Or.inr ⟨slot, ?_, rfl⟩
      simp only [List.mem_append, List.mem_cons] at hslot ⊢
      tauto
  · rw [List.append_assoc, List.append_assoc]
    refine List.Perm.append_left pre ?_
    exact List.perm_middle

/-- `removeItem` gives the slot of an item of the queue back. -/
theorem Shape.removeItem {cursor : Nat} {pre post : List Nat} (hlocated : Located holder)
    (hshape : Shape mem holder (pre ++ cursor :: post) free loose) :
    Shape (removeItem mem holder cursor) holder (pre ++ post) (free ++ [cursor]) loose ∧
      SameFields mem (removeItem mem holder cursor) (allSlots holder) := by
  obtain ⟨hunlinked, hfields⟩ := hshape.unlinkItem hlocated
  obtain ⟨hfreed, hfields'⟩ := hunlinked.slotFree hlocated
  exact ⟨hfreed, hfields.trans hfields'⟩

/-- Seen from the links, linking an item is inserting an object into a ring. -/
theorem linkBefore_eq {unit prev cursor : Nat} (hprev : load32 mem (prevAt cursor) = prev)
    (hunitTop : prevAt unit + 8 ≤ wordModulus) (hprevTop : prevAt prev + 8 ≤ wordModulus)
    (hcursorTop : prevAt cursor + 8 ≤ wordModulus)
    (hunitPrev : Apart (prevAt unit) 8 (prevAt prev) 8)
    (hunitCursor : Apart (prevAt unit) 8 (prevAt cursor) 8) :
    linkBefore mem unit cursor =
      listInsert mem 4 (prevAt unit) (prevAt cursor) (prevAt prev) := by
  have hfirst : load32 (store32 mem (nextAt unit) cursor) (prevAt cursor) = prev := by
    rw [load32_store32_of_apart, hprev]
    unfold Apart at hunitCursor ⊢
    simp only [prevAt, nextAt] at hunitCursor ⊢
    omega
  have hsecond : load32 (store32 (store32 mem (nextAt unit) cursor) (prevAt unit) prev)
      (prevAt cursor) = prev := by
    rw [load32_store32_of_apart, hfirst]
    unfold Apart at hunitCursor ⊢
    omega
  have happly : Apart (prevAt unit) 4 (nextAt prev) 4 ∧ Apart (nextAt unit) 4 (nextAt prev) 4 ∧
      Apart (nextAt unit) 4 (prevAt unit) 4 := by
    unfold Apart at hunitPrev ⊢
    simp only [prevAt, nextAt] at hunitPrev ⊢
    omega
  calc linkBefore mem unit cursor
      = store32 (store32 (store32 (store32 mem (nextAt unit) cursor) (prevAt unit) prev)
          (nextAt prev) unit) (prevAt cursor) unit := by
        rw [linkBefore, hfirst, hsecond]
    _ = store32 (store32 (store32 (store32 mem (nextAt prev) unit) (prevAt unit) prev)
          (nextAt unit) cursor) (prevAt cursor) unit := by
        rw [store32_comm _ _ _ happly.1, store32_comm mem _ _ happly.2.1,
          store32_comm (store32 mem (nextAt prev) unit) _ _ happly.2.2]
    _ = listInsert mem 4 (prevAt unit) (prevAt cursor) (prevAt prev) := by
        rw [listInsert, offsetPointer_prevAt hunitTop, offsetPointer_prevAt hprevTop,
          offsetPointer_prevAt hcursorTop]
        rfl

/-- The end of `insert` puts an item that is on no ring into the queue. -/
theorem Shape.linkBefore {unit : Nat} {pre post : List Nat} (hlocated : Located holder)
    (hshape : Shape mem holder (pre ++ post) free (unit :: loose)) :
    Shape (linkBefore mem unit (post.headD holder)) holder (pre ++ unit :: post) free loose ∧
      SameFields mem (linkBefore mem unit (post.headD holder)) (allSlots holder) := by
  have hprev : load32 mem (prevAt (post.headD holder)) = pre.getLastD holder := hshape.linked.2
  have hsub : holder :: (pre ++ post) ⊆ holder :: ((pre ++ post) ++ unit :: loose) :=
    List.cons_subset_cons holder (List.subset_append_left _ _)
  have hunit : unit ∈ holder :: ((pre ++ post) ++ unit :: loose) := by simp
  have hout : unit ∉ holder :: (pre ++ post) := by
    have hnodup := (hshape.placed_items hlocated).nodup.of_map
    rw [← List.cons_append, List.nodup_append'] at hnodup
    exact fun hmem => hnodup.2.2 hmem List.mem_cons_self
  have hprevMem := getLastD_mem_ring holder pre post
  have hnextMem := headD_mem_ring holder pre post
  rw [linkBefore_eq hprev (hshape.link_range hlocated hunit)
    (hshape.link_range hlocated (hsub hprevMem)) (hshape.link_range hlocated (hsub hnextMem))
    (hshape.link_apart hlocated hunit (hsub hprevMem) fun heq => hout (heq ▸ hprevMem))
    (hshape.link_apart hlocated hunit (hsub hnextMem) fun heq => hout (heq ▸ hnextMem))]
  have hqueue := hshape.queue
  rw [List.map_append, List.reverse_append] at hqueue
  have hplaced : Placed 4 (prevAt unit :: prevAt holder ::
      ((post.map prevAt).reverse ++ (pre.map prevAt).reverse)) := by
    rw [← List.reverse_append, ← List.map_append]
    have hperm : (holder :: ((pre ++ post) ++ unit :: loose)).Perm
        (unit :: holder :: ((pre ++ post) ++ loose)) :=
      (List.perm_middle.cons holder).trans (List.Perm.swap unit holder _)
    have hsublist : (unit :: holder :: (pre ++ post)).Sublist
        (unit :: holder :: ((pre ++ post) ++ loose)) :=
      ((List.sublist_append_left _ _).cons_cons holder).cons_cons unit
    refine (((hshape.placed_items hlocated).perm (hperm.map prevAt)).sublist
      (hsublist.map prevAt)).perm ?_
    exact ((List.reverse_perm _).symm.cons (prevAt holder)).cons (prevAt unit)
  have hlinked := ring_insert hqueue hplaced
  rw [getLastD_reverse, headD_reverse, headD_map_prevAt, getLastD_map_prevAt] at hlinked
  obtain ⟨hring, huntouched⟩ := hlinked
  have hmirror : (post.map prevAt).reverse ++ prevAt unit :: (pre.map prevAt).reverse =
      ((pre ++ unit :: post).map prevAt).reverse := by
    simp
  rw [hmirror] at hring
  refine hshape.of_queue_change huntouched ?_ hring ?_
  · intro obj hobj
    rw [← List.reverse_append, ← List.map_append, List.mem_cons, List.mem_cons,
      List.mem_reverse] at hobj
    rcases hobj with rfl | rfl | hobj
    · exact Or.inr ⟨unit, by simp, rfl⟩
    · exact Or.inl rfl
    · obtain ⟨slot, hslot, rfl⟩ := List.mem_map.mp hobj
      exact Or.inr ⟨slot, List.mem_append_left _ hslot, rfl⟩
  · rw [List.append_assoc, List.append_assoc]
    exact (List.perm_middle.symm).append_left pre

/-! ## The members of a new item -/

/-- A change inside an item that is on no ring. -/
theorem Shape.of_loose_change {unit : Nat} (hshape : Shape mem holder items free loose)
    (hunit : unit ∈ loose) (hsame : ∀ addr, addr < unit ∨ unit + 24 ≤ addr → mem' addr = mem addr) :
    Shape mem' holder items free loose ∧
      ∀ slot ∈ items ++ free, SameOn mem mem' (slot + 12) (slot + 24) := by
  have hbounds := hshape.range (List.mem_append_right _ hunit)
  have hother : ∀ slot ∈ items ++ free, SameOn mem mem' slot (slot + 24) := by
    intro slot hslot addr hlow hhigh
    have hapart := (List.pairwise_append.mp hshape.apart).2.2 slot hslot unit hunit
    unfold Apart at hapart
    exact hsame addr (by omega)
  have hbelow : SameOn mem mem' holder (holder + 44) := fun addr hlow hhigh =>
    hsame addr (by omega)
  refine ⟨⟨?_, ?_, ?_, hshape.slots⟩, ?_⟩
  · refine ring_congr ?_ hshape.queue
    intro link hlink
    rw [List.mem_cons, List.mem_reverse] at hlink
    rcases hlink with rfl | hmem
    · exact hbelow.mono (by simp only [prevAt]; omega) (by simp only [prevAt]; omega)
    · obtain ⟨item, hitem, rfl⟩ := List.mem_map.mp hmem
      exact (hother item (List.mem_append_left _ hitem)).mono (by simp only [prevAt]; omega)
        (by simp only [prevAt]; omega)
  · refine ring_congr ?_ hshape.ring
    intro link hlink
    rcases List.mem_cons.mp hlink with rfl | hfree
    · exact hbelow.mono (by simp only [freeHead, allocAt]; omega)
        (by simp only [freeHead, allocAt]; omega)
    · exact (hother link (List.mem_append_right _ hfree)).mono le_rfl (by omega)
  · exact ready_congr (hbelow.mono (by omega) (by omega)) (hbelow.mono (by omega) le_rfl)
      hshape.ready
  · exact fun slot hslot => (hother slot hslot).mono (by omega) le_rfl

theorem fillItem_apply {unit : Nat} {sock : Int32} {entry : Entry} {addr : Nat}
    (haddr : addr < unit ∨ unit + 24 ≤ addr) : fillItem mem unit sock entry addr = mem addr := by
  simp only [fillItem, nextAt, fdAt, instAt, refAt]
  rw [store32_apply (by omega), store32_apply (by omega), store32_apply (by omega),
    store32_apply (by omega)]

theorem fdOf_fillItem (mem : Mem) (unit : Nat) (sock : Int32) (entry : Entry) :
    fdOf (fillItem mem unit sock entry) unit = sock := by
  have hword : load32 (fillItem mem unit sock entry) (fdAt unit) = sock.toUInt32.toNat := by
    rw [fillItem, load32_store32_of_apart, load32_store32_of_apart, load32_store32_same]
    · exact Nat.mod_eq_of_lt sock.toUInt32.toNat_lt
    all_goals simp only [Apart, fdAt, instAt, refAt]; omega
  rw [fdOf, hword, UInt32.ofNat_toNat]
  rfl

theorem entryOf_fillItem (mem : Mem) (unit : Nat) (sock : Int32) (entry : Entry) :
    entryOf (fillItem mem unit sock entry) unit = entry := by
  have hinst : load32 (fillItem mem unit sock entry) (instAt unit) = entry.inst.toNat := by
    rw [fillItem, load32_store32_of_apart, load32_store32_same]
    · exact Nat.mod_eq_of_lt entry.inst.toNat_lt
    · simp only [Apart, instAt, refAt]
      omega
  have href : load32 (fillItem mem unit sock entry) (refAt unit) = entry.ref.toNat := by
    rw [fillItem, load32_store32_same]
    exact Nat.mod_eq_of_lt entry.ref.toNat_lt
  rw [entryOf, hinst, href, UInt32.ofNat_toNat, UInt32.ofNat_toNat]

end

end McuProxy.Net.Holder
