/-
# Circular doubly linked lists in memory

A list object is two words: the link to the next object and the link to the
previous one. A link is stored as an offset from a base address, which makes a
list in shared memory independent of where the memory is mapped; with base 0 the
links are plain pointers.

`Ring` says that memory holds the circular list that starts at a head object and
visits given nodes. Linking and unlinking an object are described by the ring
they leave and by the bytes they do not touch.
-/

import McuProxy.Memory.Word

namespace McuProxy.Memory

/-- The offset of an address from a base. -/
def offsetPointer (addr base : Nat) : Nat := subWord addr base

/-- The address at an offset from a base. -/
def offsetNode (base offset : Nat) : Nat := (base + offset) % wordModulus

/-- The object after the one at `obj`. -/
def nextOf (mem : Mem) (base obj : Nat) : Nat := offsetNode base (load32 mem obj)

/-- The object before the one at `obj`. -/
def prevOf (mem : Mem) (base obj : Nat) : Nat := offsetNode base (load32 mem (obj + 4))

/-- Link `new` between `prev` and `next`. -/
def listInsert (mem : Mem) (base new prev next : Nat) : Mem :=
  let mem := store32 mem (next + 4) (offsetPointer new base)
  let mem := store32 mem new (offsetPointer next base)
  let mem := store32 mem (new + 4) (offsetPointer prev base)
  store32 mem prev (offsetPointer new base)

/-- Link `new` after `head`. -/
def listAdd (mem : Mem) (base new head : Nat) : Mem :=
  listInsert mem base new head (nextOf mem base head)

/-- Link `new` before `head`. -/
def listAddTail (mem : Mem) (base new head : Nat) : Mem :=
  listInsert mem base new (prevOf mem base head) head

/-- Make the neighbours of `entry` point at each other. -/
def listUnlink (mem : Mem) (base entry : Nat) : Mem :=
  let prev := prevOf mem base entry
  let next := nextOf mem base entry
  let mem := store32 mem (next + 4) (offsetPointer prev base)
  store32 mem prev (offsetPointer next base)

/-- Unlink `entry` and clear its links. -/
def listDel (mem : Mem) (base entry : Nat) : Mem :=
  let prev := prevOf mem base entry
  let next := nextOf mem base entry
  let mem := store32 mem (next + 4) (offsetPointer prev base)
  let mem := store32 mem prev (offsetPointer next base)
  let mem := store32 mem entry 0
  store32 mem (entry + 4) 0

/-! ## Rings -/

/-- `second` follows `first`, seen from both. -/
def Linked (mem : Mem) (base first second : Nat) : Prop :=
  nextOf mem base first = second ∧ prevOf mem base second = first

/-- From `start` the links visit the given objects in order. -/
def Path (mem : Mem) (base : Nat) : Nat → List Nat → Prop
  | _, [] => True
  | start, obj :: objs => Linked mem base start obj ∧ Path mem base obj objs

/-- The circular list from `head` through `nodes` back to `head`. -/
def Ring (mem : Mem) (base head : Nat) (nodes : List Nat) : Prop :=
  Path mem base head (nodes ++ [head])

/-- Objects that can be linked relative to a base: inside the address space,
above the base, and not overlapping. -/
structure Placed (base : Nat) (objs : List Nat) : Prop where
  range : ∀ obj ∈ objs, base ≤ obj ∧ obj + 8 ≤ wordModulus
  apart : objs.Pairwise fun first second => Apart first 8 second 8

/-- Nothing outside the given objects has changed. -/
def Untouched (mem mem' : Mem) (objs : List Nat) : Prop :=
  ∀ addr, (∀ obj ∈ objs, addr < obj ∨ obj + 8 ≤ addr) → mem' addr = mem addr

theorem offsetNode_offsetPointer {base addr : Nat} (hbase : base ≤ addr)
    (haddr : addr < wordModulus) :
    offsetNode base (offsetPointer addr base % wordModulus) = addr := by
  simp only [offsetNode, offsetPointer, subWord, wordModulus] at *
  omega

theorem Placed.perm {base : Nat} {objs objs' : List Nat} (hplaced : Placed base objs)
    (hperm : objs.Perm objs') : Placed base objs' where
  range := fun obj hobj => hplaced.range obj (hperm.mem_iff.mpr hobj)
  apart := hperm.pairwise hplaced.apart Or.symm

theorem Placed.sublist {base : Nat} {objs objs' : List Nat} (hplaced : Placed base objs)
    (hsub : objs'.Sublist objs) : Placed base objs' :=
  ⟨fun obj hobj => hplaced.range obj (hsub.subset hobj), hplaced.apart.sublist hsub⟩

theorem Placed.nodup {base : Nat} {objs : List Nat} (hplaced : Placed base objs) : objs.Nodup := by
  refine hplaced.apart.imp ?_
  rintro first second h rfl
  rcases h with h | h <;> omega

/-- Different objects do not overlap. -/
theorem Placed.apart_of_ne {base : Nat} {objs : List Nat} (hplaced : Placed base objs)
    {first second : Nat} (hfirst : first ∈ objs) (hsecond : second ∈ objs)
    (hne : first ≠ second) : Apart first 8 second 8 :=
  hplaced.apart.forall hfirst hsecond hne

/-- Two objects beside a further one are the same or do not overlap. -/
theorem Placed.eq_or_apart {base entry : Nat} {objs : List Nat}
    (hplaced : Placed base (entry :: objs))
    {first second : Nat} (hfirst : first ∈ objs) (hsecond : second ∈ objs) :
    first = second ∨ Apart first 8 second 8 := by
  by_cases heq : first = second
  · exact Or.inl heq
  · exact Or.inr (hplaced.apart_of_ne (List.mem_cons_of_mem _ hfirst)
      (List.mem_cons_of_mem _ hsecond) heq)

theorem load32_untouched {mem mem' : Mem} {objs : List Nat} (huntouched : Untouched mem mem' objs)
    {addr : Nat} (hapart : ∀ obj ∈ objs, Apart addr 4 obj 8) :
    load32 mem' addr = load32 mem addr := by
  apply load32_congr
  intro other hlow hhigh
  apply huntouched
  intro obj hobj
  rcases hapart obj hobj with h | h <;> omega

theorem path_append {mem : Mem} {base start : Nat} {first second : List Nat} :
    Path mem base start (first ++ second) ↔
      Path mem base start first ∧ Path mem base (first.getLastD start) second := by
  induction first generalizing start with
  | nil => simp [Path]
  | cons obj objs ih =>
      rw [List.cons_append, Path, Path, ih, and_assoc]
      simp only [List.getLastD_cons]

/-- A path is kept when the words it is read from are: the forward links of all
objects but the last, and the backward links of all but the first. -/
theorem path_congr {mem mem' : Mem} {base start : Nat} {objs : List Nat}
    (hnext : ∀ obj ∈ (start :: objs).dropLast, load32 mem' obj = load32 mem obj)
    (hprev : ∀ obj ∈ objs, load32 mem' (obj + 4) = load32 mem (obj + 4))
    (hpath : Path mem base start objs) : Path mem' base start objs := by
  induction objs generalizing start with
  | nil => trivial
  | cons obj objs ih =>
      obtain ⟨⟨hfirst, hsecond⟩, hrest⟩ := hpath
      rw [List.dropLast_cons_cons] at hnext
      refine ⟨⟨?_, ?_⟩, ih (fun other hother => hnext other (List.mem_cons_of_mem _ hother))
        (fun other hother => hprev other (List.mem_cons_of_mem _ hother)) hrest⟩
      · rw [nextOf, hnext start List.mem_cons_self]
        exact hfirst
      · rw [prevOf, hprev obj List.mem_cons_self]
        exact hsecond

/-- A ring is kept when its objects are. -/
theorem ring_congr {mem mem' : Mem} {base head : Nat} {nodes : List Nat}
    (hsame : ∀ obj ∈ head :: nodes, SameOn mem mem' obj (obj + 8))
    (hring : Ring mem base head nodes) : Ring mem' base head nodes := by
  have hword : ∀ obj ∈ head :: nodes, load32 mem' obj = load32 mem obj ∧
      load32 mem' (obj + 4) = load32 mem (obj + 4) := fun obj hobj =>
    ⟨load32_congr ((hsame obj hobj).mono le_rfl (by omega)),
      load32_congr ((hsame obj hobj).mono (by omega) (by omega))⟩
  refine path_congr ?_ ?_ hring
  · intro obj hobj
    rw [← List.cons_append, List.dropLast_concat] at hobj
    exact (hword obj hobj).1
  · intro obj hobj
    rcases List.mem_append.mp hobj with hnode | hhead
    · exact (hword obj (List.mem_cons_of_mem _ hnode)).2
    · exact (hword obj (List.mem_singleton.mp hhead ▸ List.mem_cons_self)).2

/-! ## Linking -/

/-- The four words `listInsert` writes. -/
theorem listInsert_words (mem : Mem) (base : Nat) {new prev next : Nat}
    (hnewPrev : Apart new 8 prev 8)
    (hnewNext : Apart new 8 next 8) (hprevNext : prev = next ∨ Apart prev 8 next 8) :
    load32 (listInsert mem base new prev next) prev = offsetPointer new base % wordModulus ∧
      load32 (listInsert mem base new prev next) (new + 4) =
        offsetPointer prev base % wordModulus ∧
      load32 (listInsert mem base new prev next) new = offsetPointer next base % wordModulus ∧
      load32 (listInsert mem base new prev next) (next + 4) =
        offsetPointer new base % wordModulus := by
  unfold Apart at hnewPrev hnewNext hprevNext
  refine ⟨?_, ?_, ?_, ?_⟩
  · exact load32_store32_same _ _ _
  · rw [listInsert, load32_store32_of_apart (by unfold Apart; omega), load32_store32_same]
  · rw [listInsert, load32_store32_of_apart (by unfold Apart; omega),
      load32_store32_of_apart (by unfold Apart; omega), load32_store32_same]
  · rw [listInsert, load32_store32_of_apart (by unfold Apart; omega),
      load32_store32_of_apart (by unfold Apart; omega),
      load32_store32_of_apart (by unfold Apart; omega), load32_store32_same]

/-- Every byte outside these words is left alone. -/
theorem listInsert_apply {mem : Mem} {base new prev next addr : Nat}
    (hnew : addr < new ∨ new + 8 ≤ addr) (hprev : addr < prev ∨ prev + 4 ≤ addr)
    (hnext : addr < next + 4 ∨ next + 8 ≤ addr) :
    listInsert mem base new prev next addr = mem addr := by
  rw [listInsert, store32_apply hprev, store32_apply (by omega), store32_apply (by omega),
    store32_apply (by omega)]

theorem listInsert_load {mem : Mem} {base new prev next addr : Nat} (hnew : Apart addr 4 new 8)
    (hprev : Apart addr 4 prev 4) (hnext : Apart addr 4 (next + 4) 4) :
    load32 (listInsert mem base new prev next) addr = load32 mem addr := by
  unfold Apart at hnew hprev hnext
  apply load32_congr
  intro other hlow hhigh
  exact listInsert_apply (by omega) (by omega) (by omega)

/-- In a list without repetitions, what is not last is not the last. -/
theorem ne_getLastD_of_mem_dropLast {obj start : Nat} {objs : List Nat}
    (hnodup : (start :: objs).Nodup) (hobj : obj ∈ (start :: objs).dropLast) :
    obj ≠ objs.getLastD start := by
  induction objs generalizing start with
  | nil => simp at hobj
  | cons next objs ih =>
      rw [List.dropLast_cons_cons] at hobj
      rw [List.getLastD_cons]
      rcases List.mem_cons.mp hobj with rfl | hrest
      · exact fun heq => (List.nodup_cons.mp hnodup).1 (heq ▸ List.getLastD_mem_cons)
      · exact ih (List.nodup_cons.mp hnodup).2 hrest

/-- The first object of a non-empty path, and the rest of the path. -/
theorem exists_path_head (head : Nat) (post : List Nat) :
    ∃ rest, post ++ [head] = post.headD head :: rest := by
  cases post with
  | nil => exact ⟨[], rfl⟩
  | cons obj post => exact ⟨post ++ [head], rfl⟩

/-- The objects of a ring other than the two neighbours keep their words. -/
theorem listInsert_keeps {mem : Mem} {base new prev next : Nat} {objs : List Nat}
    (hplaced : Placed base (new :: objs)) (hprev : prev ∈ objs) (hnext : next ∈ objs) {obj : Nat}
    (hobj : obj ∈ objs) :
    (obj ≠ prev → load32 (listInsert mem base new prev next) obj = load32 mem obj) ∧
      (obj ≠ next →
        load32 (listInsert mem base new prev next) (obj + 4) = load32 mem (obj + 4)) := by
  have hnewObj := (List.pairwise_cons.mp hplaced.apart).1 obj hobj
  have hprevObj := hplaced.eq_or_apart hobj hprev
  have hnextObj := hplaced.eq_or_apart hobj hnext
  unfold Apart at hnewObj hprevObj hnextObj
  constructor <;> intro hne <;> apply listInsert_load <;> unfold Apart <;> omega

theorem getLastD_mem_ring (head : Nat) (pre post : List Nat) :
    pre.getLastD head ∈ head :: (pre ++ post) := by
  rw [← List.cons_append]
  exact List.mem_append_left _ List.getLastD_mem_cons

theorem headD_mem_ring (head : Nat) (pre post : List Nat) :
    post.headD head ∈ head :: (pre ++ post) := by
  cases post <;> simp

/-- Which words of a ring a cut between `pre` and `post` leaves alone: the
forward links of all but the last object before the cut, and the backward links
of all but the first object after it. -/
theorem ring_cut {mem mem' : Mem} {base head : Nat} {pre post rest : List Nat}
    (hring : Path mem base head pre ∧ Path mem base (post.headD head) rest)
    (hrest : post ++ [head] = post.headD head :: rest)
    (hnodup : (head :: (pre ++ post)).Nodup)
    (hnext : ∀ obj ∈ head :: (pre ++ post), obj ≠ pre.getLastD head →
      load32 mem' obj = load32 mem obj)
    (hprev : ∀ obj ∈ head :: (pre ++ post), obj ≠ post.headD head →
      load32 mem' (obj + 4) = load32 mem (obj + 4)) :
    Path mem' base head pre ∧ Path mem' base (post.headD head) rest := by
  obtain ⟨hheadOut, hnodup'⟩ := List.nodup_cons.mp hnodup
  obtain ⟨hpreNodup, hpostNodup, hdisjoint⟩ := List.nodup_append.mp hnodup'
  have hheadPre : head ∉ pre := fun h => hheadOut (List.mem_append_left _ h)
  have hheadPost : head ∉ post := fun h => hheadOut (List.mem_append_right _ h)
  have hringNodup : (post ++ [head]).Nodup := by
    refine List.nodup_append.mpr ⟨hpostNodup, List.nodup_singleton _, ?_⟩
    rintro obj hobj other hother rfl
    exact hheadPost (List.mem_singleton.mp hother ▸ hobj)
  constructor
  · refine path_congr ?_ ?_ hring.1
    · intro obj hobj
      refine hnext obj ?_ (ne_getLastD_of_mem_dropLast
        (List.nodup_cons.mpr ⟨hheadPre, hpreNodup⟩) hobj)
      rw [← List.cons_append]
      exact List.mem_append_left _ (List.dropLast_subset _ hobj)
    · intro obj hobj
      refine hprev obj (List.mem_cons_of_mem _ (List.mem_append_left _ hobj)) ?_
      rintro rfl
      cases post with
      | nil => exact hheadPre hobj
      | cons first post => exact hdisjoint _ hobj _ List.mem_cons_self rfl
  · refine path_congr ?_ ?_ hring.2
    · intro obj hobj
      rw [← hrest, List.dropLast_concat] at hobj
      refine hnext obj (List.mem_cons_of_mem _ (List.mem_append_right _ hobj)) ?_
      rintro rfl
      rcases List.mem_cons.mp (List.getLastD_mem_cons (l := pre) (a := head)) with heq | hmem
      · exact hheadPost (heq ▸ hobj)
      · exact hdisjoint _ hmem _ hobj rfl
    · intro obj hobj
      rw [hrest] at hringNodup
      have hmem : obj ∈ post ++ [head] := hrest ▸ List.mem_cons_of_mem _ hobj
      refine hprev obj ?_ fun heq => (List.nodup_cons.mp hringNodup).1 (heq ▸ hobj)
      rcases List.mem_append.mp hmem with hpost | hhead
      · exact List.mem_cons_of_mem _ (List.mem_append_right _ hpost)
      · exact List.mem_singleton.mp hhead ▸ List.mem_cons_self

/-- Linking an object between two neighbours of a ring puts it there. -/
theorem ring_insert {mem : Mem} {base head new : Nat} {pre post : List Nat}
    (hring : Ring mem base head (pre ++ post))
    (hplaced : Placed base (new :: head :: (pre ++ post))) :
    Ring (listInsert mem base new (pre.getLastD head) (post.headD head)) base head
        (pre ++ new :: post) ∧
      Untouched mem (listInsert mem base new (pre.getLastD head) (post.headD head))
        (new :: head :: (pre ++ post)) := by
  obtain ⟨rest, hrest⟩ := exists_path_head head post
  have hnodup : (head :: (pre ++ post)).Nodup := (List.nodup_cons.mp hplaced.nodup).2
  have hprevMem := getLastD_mem_ring head pre post
  have hnextMem := headD_mem_ring head pre post
  have hapart := (List.pairwise_cons.mp hplaced.apart).1
  have hpair := hplaced.eq_or_apart hprevMem hnextMem
  obtain ⟨hwordPrev, hwordNewPrev, hwordNew, hwordNext⟩ :=
    listInsert_words mem base (hapart _ hprevMem) (hapart _ hnextMem) hpair
  have hdecode : ∀ obj ∈ new :: head :: (pre ++ post),
      offsetNode base (offsetPointer obj base % wordModulus) = obj := by
    intro obj hobj
    obtain ⟨hbase, htop⟩ := hplaced.range obj hobj
    exact offsetNode_offsetPointer hbase (by omega)
  constructor
  · rw [Ring, List.append_assoc, hrest] at hring
    obtain ⟨hpre, _, hpost⟩ := path_append.mp hring
    obtain ⟨hpre', hpost'⟩ := ring_cut ⟨hpre, hpost⟩ hrest hnodup
      (fun obj hobj => (listInsert_keeps hplaced hprevMem hnextMem hobj).1)
      (fun obj hobj => (listInsert_keeps hplaced hprevMem hnextMem hobj).2)
    rw [Ring, List.append_assoc, List.cons_append, hrest]
    refine path_append.mpr ⟨hpre', ⟨?_, ?_⟩, ⟨?_, ?_⟩, hpost'⟩
    · rw [nextOf, hwordPrev, hdecode new List.mem_cons_self]
    · rw [prevOf, hwordNewPrev, hdecode _ (List.mem_cons_of_mem _ hprevMem)]
    · rw [nextOf, hwordNew, hdecode _ (List.mem_cons_of_mem _ hnextMem)]
    · rw [prevOf, hwordNext, hdecode new List.mem_cons_self]
  · intro addr haddr
    have hnewOut := haddr new List.mem_cons_self
    have hprevOut := haddr _ (List.mem_cons_of_mem _ hprevMem)
    have hnextOut := haddr _ (List.mem_cons_of_mem _ hnextMem)
    exact listInsert_apply hnewOut (by omega) (by omega)

/-- The two objects on either side of a cut point at each other. -/
theorem ring_linked {mem : Mem} {base head : Nat} {pre post : List Nat}
    (hring : Ring mem base head (pre ++ post)) :
    Linked mem base (pre.getLastD head) (post.headD head) := by
  obtain ⟨rest, hrest⟩ := exists_path_head head post
  rw [Ring, List.append_assoc, hrest] at hring
  exact (path_append.mp hring).2.1

theorem listAddTail_eq {mem : Mem} {base head : Nat} {pre post : List Nat}
    (hring : Ring mem base head (pre ++ post)) (new : Nat) :
    listAddTail mem base new (post.headD head) =
      listInsert mem base new (pre.getLastD head) (post.headD head) := by
  rw [listAddTail, (ring_linked hring).2]

theorem listAdd_eq {mem : Mem} {base head : Nat} {pre post : List Nat}
    (hring : Ring mem base head (pre ++ post)) (new : Nat) :
    listAdd mem base new (pre.getLastD head) =
      listInsert mem base new (pre.getLastD head) (post.headD head) := by
  rw [listAdd, (ring_linked hring).1]

/-! ## Unlinking -/

/-- The links of an object of a ring. -/
theorem ring_entry {mem : Mem} {base head entry : Nat} {pre post : List Nat}
    (hring : Ring mem base head (pre ++ entry :: post)) :
    prevOf mem base entry = pre.getLastD head ∧ nextOf mem base entry = post.headD head := by
  have hcut : Ring mem base head ((pre ++ [entry]) ++ post) := by
    rw [List.append_assoc, List.singleton_append]
    exact hring
  have hnext := (ring_linked hcut).1
  rw [List.getLastD_concat] at hnext
  exact ⟨(ring_linked hring).2, hnext⟩

theorem ring_perm_entry (head entry : Nat) (pre post : List Nat) :
    (head :: (pre ++ entry :: post)).Perm (entry :: head :: (pre ++ post)) :=
  (List.perm_middle.cons head).trans (List.Perm.swap entry head _)

/-- Unlinking an object of a ring takes it out, and leaves the object as it was. -/
theorem ring_unlink {mem : Mem} {base head entry : Nat} {pre post : List Nat}
    (hring : Ring mem base head (pre ++ entry :: post))
    (hplaced : Placed base (head :: (pre ++ entry :: post))) :
    Ring (listUnlink mem base entry) base head (pre ++ post) ∧
      Untouched mem (listUnlink mem base entry) (head :: (pre ++ post)) := by
  obtain ⟨rest, hrest⟩ := exists_path_head head post
  have hplaced' := hplaced.perm (ring_perm_entry head entry pre post)
  have hnodup : (head :: (pre ++ post)).Nodup := (List.nodup_cons.mp hplaced'.nodup).2
  have hprevMem := getLastD_mem_ring head pre post
  have hnextMem := headD_mem_ring head pre post
  have hunlink : listUnlink mem base entry =
      store32 (store32 mem (post.headD head + 4) (offsetPointer (pre.getLastD head) base))
        (pre.getLastD head) (offsetPointer (post.headD head) base) := by
    rw [listUnlink, (ring_entry hring).1, (ring_entry hring).2]
  -- Away from the two links that now skip the entry, nothing changes.
  have happly : ∀ addr, (addr < pre.getLastD head ∨ pre.getLastD head + 4 ≤ addr) →
      (addr < post.headD head + 4 ∨ post.headD head + 8 ≤ addr) →
      listUnlink mem base entry addr = mem addr := by
    intro addr hprevOut hnextOut
    rw [hunlink, store32_apply hprevOut, store32_apply (by omega)]
  have hkeeps : ∀ obj ∈ head :: (pre ++ post),
      (obj ≠ pre.getLastD head → load32 (listUnlink mem base entry) obj = load32 mem obj) ∧
        (obj ≠ post.headD head →
          load32 (listUnlink mem base entry) (obj + 4) = load32 mem (obj + 4)) := by
    intro obj hobj
    have hprevObj := hplaced'.eq_or_apart hobj hprevMem
    have hnextObj := hplaced'.eq_or_apart hobj hnextMem
    unfold Apart at hprevObj hnextObj
    constructor <;> intro hne <;> apply load32_congr <;> intro other hlow hhigh <;>
      apply happly <;> omega
  have hdecode : ∀ obj ∈ head :: (pre ++ post),
      offsetNode base (offsetPointer obj base % wordModulus) = obj := by
    intro obj hobj
    obtain ⟨hbase, htop⟩ := hplaced'.range obj (List.mem_cons_of_mem _ hobj)
    exact offsetNode_offsetPointer hbase (by omega)
  constructor
  · rw [Ring, List.append_assoc, List.cons_append, hrest] at hring
    obtain ⟨hpre, _, _, hpost⟩ := path_append.mp hring
    obtain ⟨hpre', hpost'⟩ := ring_cut ⟨hpre, hpost⟩ hrest hnodup
      (fun obj hobj => (hkeeps obj hobj).1) (fun obj hobj => (hkeeps obj hobj).2)
    rw [Ring, List.append_assoc, hrest]
    have hpair := hplaced'.eq_or_apart hprevMem hnextMem
    unfold Apart at hpair
    refine path_append.mpr ⟨hpre', ⟨?_, ?_⟩, hpost'⟩
    · rw [nextOf, hunlink, load32_store32_same, hdecode _ hnextMem]
    · rw [prevOf, hunlink, load32_store32_of_apart (by unfold Apart; omega), load32_store32_same,
        hdecode _ hprevMem]
  · intro addr haddr
    have hprevOut := haddr _ hprevMem
    have hnextOut := haddr _ hnextMem
    exact happly addr (by omega) (by omega)

/-- Clearing the links of the object that was taken out does not touch the ring. -/
theorem ring_del {mem : Mem} {base head entry : Nat} {pre post : List Nat}
    (hring : Ring mem base head (pre ++ entry :: post))
    (hplaced : Placed base (head :: (pre ++ entry :: post))) :
    Ring (listDel mem base entry) base head (pre ++ post) ∧
      Untouched mem (listDel mem base entry) (head :: (pre ++ entry :: post)) := by
  have hperm := ring_perm_entry head entry pre post
  have hapart := (List.pairwise_cons.mp (hplaced.perm hperm).apart).1
  obtain ⟨hring', huntouched⟩ := ring_unlink hring hplaced
  have hclear : ∀ addr, addr < entry ∨ entry + 8 ≤ addr →
      listDel mem base entry addr = listUnlink mem base entry addr := by
    intro addr hout
    rw [listDel, store32_apply (by omega), store32_apply (by omega)]
    rfl
  constructor
  · refine ring_congr ?_ hring'
    intro obj hobj addr hlow hhigh
    have hout := hapart obj hobj
    unfold Apart at hout
    exact hclear addr (by omega)
  · intro addr haddr
    rw [hclear addr (haddr entry (hperm.mem_iff.mpr List.mem_cons_self))]
    apply huntouched addr
    intro obj hobj
    exact haddr obj (hperm.mem_iff.mpr (List.mem_cons_of_mem _ hobj))

/-! ## A single object

An object alone with the head may be anywhere in the address space, also at its
very end: its links are then not all in memory, but nothing is read from beyond. -/

/-- The first object of a ring. -/
theorem ring_insert_single {mem : Mem} {base head new : Nat} (hring : Ring mem base head [])
    (hapart : Apart new 8 head 8) (hhead : base ≤ head ∧ head < wordModulus)
    (hnew : base ≤ new ∧ new < wordModulus) :
    Ring (listAddTail mem base new head) base head [new] ∧
      Untouched mem (listAddTail mem base new head) [head, new] := by
  have hcut : Ring mem base head ([] ++ []) := hring
  have heq : listAddTail mem base new head = listInsert mem base new head head :=
    listAddTail_eq hcut new
  obtain ⟨hwordPrev, hwordNewPrev, hwordNew, hwordNext⟩ :=
    listInsert_words mem base hapart hapart (Or.inl rfl)
  have hdecodeHead := offsetNode_offsetPointer hhead.1 hhead.2
  have hdecodeNew := offsetNode_offsetPointer hnew.1 hnew.2
  rw [heq]
  constructor
  · refine ⟨⟨?_, ?_⟩, ⟨?_, ?_⟩, trivial⟩
    · rw [nextOf, hwordPrev, hdecodeNew]
    · rw [prevOf, hwordNewPrev, hdecodeHead]
    · rw [nextOf, hwordNew, hdecodeHead]
    · rw [prevOf, hwordNext, hdecodeNew]
  · intro addr haddr
    have hheadOut := haddr head List.mem_cons_self
    have hnewOut := haddr new (by simp)
    exact listInsert_apply hnewOut (by omega) (by omega)

/-- The last object of a ring. -/
theorem ring_del_single {mem : Mem} {base head entry : Nat} (hring : Ring mem base head [entry])
    (hapart : Apart entry 8 head 8) (hhead : base ≤ head ∧ head < wordModulus) :
    Ring (listDel mem base entry) base head [] ∧
      Untouched mem (listDel mem base entry) [head, entry] := by
  obtain ⟨⟨-, hprev⟩, ⟨hnext, -⟩, -⟩ := hring
  have heq : listDel mem base entry = store32 (store32 (store32 (store32 mem (head + 4)
      (offsetPointer head base)) head (offsetPointer head base)) entry 0) (entry + 4) 0 := by
    rw [listDel, hprev, hnext]
  have hdecode := offsetNode_offsetPointer hhead.1 hhead.2
  rw [heq]
  constructor
  · unfold Apart at hapart
    refine ⟨⟨?_, ?_⟩, trivial⟩
    · rw [nextOf, load32_store32_of_apart (by unfold Apart; omega),
        load32_store32_of_apart (by unfold Apart; omega), load32_store32_same, hdecode]
    · rw [prevOf, load32_store32_of_apart (by unfold Apart; omega),
        load32_store32_of_apart (by unfold Apart; omega),
        load32_store32_of_apart (by unfold Apart; omega), load32_store32_same, hdecode]
  · intro addr haddr
    have hheadOut := haddr head List.mem_cons_self
    have hentryOut := haddr entry (by simp)
    rw [store32_apply (by omega), store32_apply (by omega), store32_apply (by omega),
      store32_apply (by omega)]

/-! ## Walking a ring -/

universe u

variable {σ : Type u}

/-- How the body of a loop ends: by a `break`, or at its end. -/
inductive Flow (σ : Type u)
  | brk (state : σ)
  | cont (state : σ)

/-- The loop over a circular list. It starts at the object after the head and
stops at the head; the result is the object it stopped at and the final state.
Each turn takes a unit of fuel. -/
def forEach (memOf : σ → Mem) (base head : Nat) (body : Nat → σ → Flow σ) :
    Nat → Nat → σ → Option (Nat × σ)
  | 0, _, _ => none
  | fuel + 1, pos, state =>
      if pos = head then some (pos, state)
      else
        match body pos state with
        | .brk state => some (pos, state)
        | .cont state => forEach memOf base head body fuel (nextOf (memOf state) base pos) state

/-- More turns than the address space has room for objects. -/
def loopFuel : Nat := wordModulus

/-- `list_for_each_entry`. -/
def listForEach (memOf : σ → Mem) (base head : Nat) (body : Nat → σ → Flow σ) (state : σ) :
    Option (Nat × σ) :=
  forEach memOf base head body loopFuel (nextOf (memOf state) base head) state

/-- The same loop over a list of objects, with the object it broke at. -/
def walk (body : Nat → σ → Flow σ) : List Nat → σ → Option Nat × σ
  | [], state => (none, state)
  | obj :: objs, state =>
      match body obj state with
      | .brk state => (some obj, state)
      | .cont state => walk body objs state

theorem walk_append {body : Nat → σ → Flow σ} {first : List Nat} (second : List Nat)
    {state mid : σ} (hfirst : walk body first state = (none, mid)) :
    walk body (first ++ second) state = walk body second mid := by
  induction first generalizing state with
  | nil =>
      obtain rfl : state = mid := (Prod.mk.inj hfirst).2
      rfl
  | cons obj first ih =>
      rw [walk] at hfirst
      rw [List.cons_append, walk]
      cases hbody : body obj state with
      | brk next => simp [hbody] at hfirst
      | cont next =>
          rw [hbody] at hfirst
          exact ih hfirst

/-- A loop whose body does nothing to the state walks through. -/
theorem walk_of_cont {body : Nat → σ → Flow σ} {objs : List Nat} {state : σ}
    (hbody : ∀ obj ∈ objs, body obj state = .cont state) :
    walk body objs state = (none, state) := by
  induction objs with
  | nil => rfl
  | cons obj objs ih =>
      rw [walk, hbody obj List.mem_cons_self]
      exact ih fun other hother => hbody other (List.mem_cons_of_mem _ hother)

section

variable {memOf : σ → Mem} {base head : Nat} {body : Nat → σ → Flow σ} {nodes : List Nat}

/-- As long as the body keeps the ring, the loop in memory is the loop over the
nodes of the ring, and it ends. -/
theorem forEach_eq_walk (Good : σ → Prop)
    (hring : ∀ state, Good state → Ring (memOf state) base head nodes)
    (hbody : ∀ obj ∈ nodes, ∀ state next, Good state → body obj state = .cont next → Good next)
    (hhead : head ∉ nodes) {fuel : Nat} {pre post : List Nat} (hnodes : nodes = pre ++ post)
    {state : σ} (hstate : Good state) (hfuel : post.length < fuel) :
    forEach memOf base head body fuel (post.headD head) state =
      some ((walk body post state).1.getD head, (walk body post state).2) := by
  induction post generalizing pre state fuel with
  | nil =>
      obtain ⟨fuel, rfl⟩ := Nat.exists_eq_succ_of_ne_zero (Nat.ne_of_gt hfuel)
      simp [forEach, walk]
  | cons obj post ih =>
      obtain ⟨fuel, rfl⟩ := Nat.exists_eq_succ_of_ne_zero (Nat.ne_of_gt (Nat.zero_lt_of_lt hfuel))
      have hobj : obj ∈ nodes := by simp [hnodes]
      have hne : obj ≠ head := fun heq => hhead (heq ▸ hobj)
      rw [List.headD_cons, forEach, if_neg hne, walk]
      cases hturn : body obj state with
      | brk next => rfl
      | cont next =>
          have hnext := hbody obj hobj state next hstate hturn
          have hsplit : nodes = (pre ++ [obj]) ++ post := by simp [hnodes]
          have hlink : nextOf (memOf next) base obj = post.headD head := by
            have hlinked := (ring_linked (hsplit ▸ hring next hnext)).1
            rwa [List.getLastD_concat] at hlinked
          dsimp only
          rw [hlink]
          exact ih hsplit hnext (by simpa using hfuel)

/-- The whole loop, from the head. -/
theorem listForEach_eq_walk (Good : σ → Prop)
    (hring : ∀ state, Good state → Ring (memOf state) base head nodes)
    (hbody : ∀ obj ∈ nodes, ∀ state next, Good state → body obj state = .cont next → Good next)
    (hhead : head ∉ nodes) {state : σ} (hstate : Good state) (hfuel : nodes.length < loopFuel) :
    listForEach memOf base head body state =
      some ((walk body nodes state).1.getD head, (walk body nodes state).2) := by
  have hcut : Ring (memOf state) base head ([] ++ nodes) := hring state hstate
  rw [listForEach, show nextOf (memOf state) base head = nodes.headD head from (ring_linked hcut).1]
  exact forEach_eq_walk Good hring hbody hhead (List.nil_append nodes).symm hstate hfuel

/-- The loop when its body only reads memory. -/
theorem listForEach_readonly {mem : Mem} (hring : Ring mem base head nodes) (hhead : head ∉ nodes)
    (hfuel : nodes.length < loopFuel) (body : Nat → σ → Flow σ) (state : σ) :
    listForEach (fun _ => mem) base head body state =
      some ((walk body nodes state).1.getD head, (walk body nodes state).2) :=
  listForEach_eq_walk (fun _ => True) (fun _ _ => hring)
    (fun _ _ _ _ _ _ => trivial) hhead trivial hfuel

/-- A body that only looks, at a list on which it breaks or goes on unchanged:
the loop breaks at the first object where it does, or comes to the end. -/
theorem walk_search (body : Nat → σ → Flow σ) (state : σ) {objs : List Nat}
    (hbody : ∀ obj ∈ objs, body obj state = .cont state ∨ ∃ next, body obj state = .brk next) :
    (walk body objs state = (none, state) ∧ ∀ obj ∈ objs, body obj state = .cont state) ∨
      ∃ pre obj post next, objs = pre ++ obj :: post ∧ body obj state = .brk next ∧
        walk body objs state = (some obj, next) := by
  induction objs with
  | nil => exact Or.inl ⟨rfl, by simp⟩
  | cons obj objs ih =>
      rcases hbody obj List.mem_cons_self with hcont | ⟨next, hbrk⟩
      · rcases ih fun other hother => hbody other (List.mem_cons_of_mem _ hother) with
          ⟨hwalk, hall⟩ | ⟨pre, found, post, next, rfl, hfound, hwalk⟩
        · exact Or.inl ⟨by rw [walk, hcont]; exact hwalk, List.forall_mem_cons.mpr ⟨hcont, hall⟩⟩
        · exact Or.inr ⟨obj :: pre, found, post, next, rfl, hfound,
            by rw [walk, hcont]; exact hwalk⟩
      · exact Or.inr ⟨[], obj, objs, next, rfl, hbrk, by rw [walk, hbrk]⟩

/-- The objects on a circular list, in the order of the list. -/
def listObjects (mem : Mem) (base head : Nat) : List Nat :=
  ((listForEach (fun _ => mem) base head (fun obj objs => .cont (objs ++ [obj])) []).map
    Prod.snd).getD []

theorem walk_collect (objs seen : List Nat) :
    walk (fun obj seen => Flow.cont (seen ++ [obj])) objs seen = (none, seen ++ objs) := by
  induction objs generalizing seen with
  | nil => simp [walk]
  | cons obj objs ih => simp [walk, ih]

theorem listObjects_eq {mem : Mem} (hring : Ring mem base head nodes) (hhead : head ∉ nodes)
    (hfuel : nodes.length < loopFuel) : listObjects mem base head = nodes := by
  rw [listObjects, listForEach_readonly hring hhead hfuel, walk_collect]
  rfl

end

end McuProxy.Memory
