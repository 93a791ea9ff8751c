/-
# The socket holder is a map

Every call of the holder scans a queue that is sorted by descriptor, so a scan
cuts the queue in two: the items below the descriptor, and the rest. What a call
then does to the queue is the same call on a partial map with room for
`CONTAINER_LIMIT` entries, with the same outcome, and it keeps the queue sorted.
-/

import McuProxy.Net.HolderShape

namespace McuProxy.Net.Holder

open McuProxy.Memory McuProxy.Ckits.Slot McuProxy.Math

/-- What a list of items holds. -/
def entries (mem : Mem) (items : List Nat) : List (Int32 × Entry) :=
  items.map fun item => (fdOf mem item, entryOf mem item)

/-- Entries in strictly increasing order of their descriptors. -/
def Increasing (entries : List (Int32 × Entry)) : Prop :=
  entries.Pairwise fun first second => first.1 < second.1

/-- The invariant of the holder between calls. -/
structure Good (mem : Mem) (holder : Nat) (items free : List Nat) : Prop where
  shape : Shape mem holder items free []
  sorted : Increasing (entries mem items)

section

variable {mem mem' : Mem} {holder : Nat} {items free loose : List Nat} {sock : Int32}

theorem entries_congr (hfields : SameFields mem mem' items) :
    entries mem' items = entries mem items := by
  refine List.map_congr_left fun item hitem => ?_
  rw [fdOf_congr (hfields item hitem), entryOf_congr (hfields item hitem)]

theorem entries_append (mem : Mem) (first second : List Nat) :
    entries mem (first ++ second) = entries mem first ++ entries mem second :=
  List.map_append

/-- The entries around an item with a given descriptor. -/
theorem entries_middle {pre post : List Nat} {item : Nat} (hfd : fdOf mem item = sock) :
    entries mem (pre ++ item :: post) =
      entries mem pre ++ (sock, entryOf mem item) :: entries mem post := by
  rw [entries_append, ← hfd]
  rfl

/-- Around a descriptor, an increasing list with or without an entry for it. -/
theorem increasing_middle {pre post : List (Int32 × Entry)} (entry : Entry)
    (hpre : ∀ other ∈ pre, other.1 < sock) (hpost : ∀ other ∈ post, sock < other.1)
    (hsorted : Increasing (pre ++ post)) : Increasing (pre ++ (sock, entry) :: post) := by
  obtain ⟨hfirst, hsecond, hacross⟩ := List.pairwise_append.mp hsorted
  refine List.pairwise_append.mpr ⟨hfirst, List.pairwise_cons.mpr ⟨hpost, hsecond⟩, ?_⟩
  intro other hother third hthird
  rcases List.mem_cons.mp hthird with rfl | hthird
  · exact hpre other hother
  · exact hacross other hother third hthird

theorem Shape.items_subset (hshape : Shape mem holder items free loose) :
    items ⊆ allSlots holder := fun _ hitem =>
  hshape.slots.mem_iff.mp (List.mem_append_left _ (List.mem_append_left _ hitem))

theorem Shape.length (hshape : Shape mem holder items free loose) :
    items.length + free.length + loose.length = containerLimit := by
  have hlength := hshape.slots.length_eq
  rw [allSlots, length_slotsFrom, List.length_append, List.length_append] at hlength
  exact hlength

theorem Shape.holder_notMem (hshape : Shape mem holder items free loose) : holder ∉ items := by
  intro hmem
  have hbounds := hshape.range (List.mem_append_left _ (List.mem_append_left _ hmem))
  omega

theorem length_lt_loopFuel {count : Nat} (hcount : count ≤ containerLimit) : count < loopFuel := by
  simp only [containerLimit, loopFuel, wordModulus] at *
  omega

theorem Shape.queued_eq (hshape : Shape mem holder items free loose) :
    queued mem holder = items := by
  have hlength := hshape.length
  have hhead : prevAt holder ∉ (items.map prevAt).reverse := by
    rw [List.mem_reverse]
    intro hmem
    obtain ⟨item, hitem, heq⟩ := List.mem_map.mp hmem
    exact hshape.holder_notMem (Nat.add_right_cancel heq ▸ hitem)
  rw [queued, listObjects_eq hshape.queue hhead
    (length_lt_loopFuel (by rw [List.length_reverse, List.length_map]; omega)), List.map_reverse,
    List.reverse_reverse, List.map_map]
  exact List.map_id'' (fun item => Nat.add_sub_cancel item 4) items

theorem Shape.freeSlots_eq (hshape : Shape mem holder items free loose) :
    freeSlots mem holder = free := by
  have hlength := hshape.length
  refine listObjects_eq hshape.ring ?_ (length_lt_loopFuel (by omega))
  intro hmem
  have hbounds := hshape.range (List.mem_append_left _ (List.mem_append_right _ hmem))
  simp only [freeHead, allocAt] at hbounds
  omega

theorem Shape.view_eq (hshape : Shape mem holder items free loose) :
    view mem holder = LimitedMap.ofEntries (entries mem items) free.length := by
  refine LimitedMap.ext (fun sock => ?_) ?_
  · rw [view, hshape.queued_eq]
    simp only [LimitedMap.ofEntries, LimitedMap.lookupIn, entries, List.find?_map, Option.map_map]
    rfl
  · rw [view, hshape.freeSlots_eq]
    rfl

/-- The scan from any place in the queue stops at the first item that is not below
the descriptor. -/
theorem scan_eq {pre post : List Nat} (hshape : Shape mem holder (pre ++ post) free loose)
    {fuel : Nat} (hfuel : post.length < fuel) :
    scan mem holder sock fuel (post.headD holder) =
      some ((post.dropWhile fun item => fdOf mem item < sock).headD holder) := by
  induction post generalizing pre fuel with
  | nil =>
      obtain ⟨fuel, rfl⟩ := Nat.exists_eq_add_of_lt hfuel
      simp [scan]
  | cons item post ih =>
      obtain ⟨fuel, rfl⟩ : ∃ rest, fuel = rest + 1 := ⟨fuel - 1, by omega⟩
      have hne : item ≠ holder := by
        rintro rfl
        exact hshape.holder_notMem (List.mem_append_right _ List.mem_cons_self)
      have hcut : Shape mem holder ((pre ++ [item]) ++ post) free loose := by
        rw [List.append_assoc, List.singleton_append]
        exact hshape
      rw [List.headD_cons, scan, if_neg hne, hshape.next_eq]
      by_cases hbelow : fdOf mem item < sock
      · have hne : fdOf mem item ≠ sock := fun heq => Int32.lt_irrefl (heq ▸ hbelow)
        rw [if_neg (Int32.lt_asymm hbelow), if_neg hne,
          List.dropWhile_cons_of_pos (by simpa using hbelow)]
        exact ih hcut (by rw [List.length_cons] at hfuel; omega)
      · rw [List.dropWhile_cons_of_neg (by simpa using hbelow), List.headD_cons]
        split_ifs with habove hsame
        · rfl
        · rfl
        · exact absurd (Int32.le_antisymm (Int32.not_lt.mp habove) (Int32.not_lt.mp hbelow)) hsame

/-- What the search of a call finds: the item with the descriptor, or the place
between the items below it and those above it. -/
theorem search_cases (hshape : Shape mem holder items free loose)
    (hsorted : Increasing (entries mem items)) (sock : Int32) :
    (∃ pre cursor post, items = pre ++ cursor :: post ∧ fdOf mem cursor = sock ∧
        (∀ entry ∈ entries mem pre, entry.1 < sock) ∧ (∀ entry ∈ entries mem post, sock < entry.1) ∧
        search mem holder sock = some cursor ∧ found mem holder sock cursor = true) ∨
      ∃ pre post, items = pre ++ post ∧ (∀ entry ∈ entries mem pre, entry.1 < sock) ∧
        (∀ entry ∈ entries mem post, sock < entry.1) ∧
        search mem holder sock = some (post.headD holder) ∧
        found mem holder sock (post.headD holder) = false := by
  have hlength := hshape.length
  obtain ⟨pre, hpre⟩ : ∃ pre, pre = items.takeWhile fun item => fdOf mem item < sock := ⟨_, rfl⟩
  obtain ⟨post, hpost⟩ : ∃ post, post = items.dropWhile fun item => fdOf mem item < sock := ⟨_, rfl⟩
  have hitems : items = pre ++ post := by rw [hpre, hpost, List.takeWhile_append_dropWhile]
  have hsearch : search mem holder sock = some (post.headD holder) := by
    have hcut : Shape mem holder ([] ++ items) free loose := hshape
    have hnext : load32 mem (nextAt holder) = items.headD holder := hcut.linked.1
    rw [search, hnext, scan_eq hcut (length_lt_loopFuel (by omega)), hpost]
  have hbelow : ∀ entry ∈ entries mem pre, entry.1 < sock := by
    intro entry hentry
    obtain ⟨item, hitem, rfl⟩ := List.mem_map.mp hentry
    rw [hpre] at hitem
    exact of_decide_eq_true (List.all_eq_true.mp List.all_takeWhile item hitem)
  cases post with
  | nil =>
      refine Or.inr ⟨pre, [], hitems, hbelow, by simp [entries], hsearch, ?_⟩
      simp [found]
  | cons cursor post =>
      have hne : cursor ≠ holder := by
        rintro rfl
        exact hshape.holder_notMem (by rw [hitems]; simp)
      have hnotBelow : ¬ fdOf mem cursor < sock := by
        have hhead := List.head?_dropWhile_not (fun item => fdOf mem item < sock) items
        rw [← hpost] at hhead
        exact of_decide_eq_false hhead
      have hafter : ∀ entry ∈ entries mem post, fdOf mem cursor < entry.1 := by
        rw [hitems, entries, List.map_append, Increasing, List.pairwise_append] at hsorted
        exact (List.pairwise_cons.mp hsorted.2.1).1
      by_cases hsame : fdOf mem cursor = sock
      · refine Or.inl ⟨pre, cursor, post, hitems, hsame, hbelow, hsame ▸ hafter, hsearch, ?_⟩
        simp [found, hne, hsame]
      · have habove : sock < fdOf mem cursor :=
          Int32.lt_of_le_of_ne (Int32.not_lt.mp hnotBelow) fun heq => hsame heq.symm
        refine Or.inr ⟨pre, cursor :: post, hitems, hbelow, ?_, hsearch, ?_⟩
        · intro entry hentry
          rcases List.mem_cons.mp hentry with rfl | hrest
          · exact habove
          · exact Int32.lt_trans habove (hafter entry hrest)
        · simp [found, hsame]

section

variable {map : LimitedMap Int32 Entry} {entry : Entry} {transports : Transports}

theorem mapStep_insert_null (hnull : entry.inst = 0) :
    mapStep map (.insert sock entry) = (⟨.unknownError, none, []⟩, map) := by
  rw [mapStep, if_pos hnull]

theorem mapStep_insert_full (hfull : map.free = 0) :
    mapStep map (.insert sock entry) = (⟨.unknownError, none, []⟩, map) := by
  simp [mapStep, mapInsert, hfull]

theorem mapStep_insert (hinst : entry.inst ≠ 0) (hroom : map.free ≠ 0) :
    mapStep map (.insert sock entry) =
      (⟨.noError, none, ((map.lookup sock).map Entry.ref).toList⟩, map.insert sock entry) := by
  simp [mapStep, mapInsert, hinst, hroom]

theorem mapStep_fetch_none (hlookup : map.lookup sock = none) :
    mapStep map (.fetch sock transports) = (⟨.nameNotFound, none, []⟩, map) := by
  simp [mapStep, mapFetch, hlookup]

theorem mapStep_fetch_usable (hlookup : map.lookup sock = some entry)
    (husable : transports.usable sock entry = true) :
    mapStep map (.fetch sock transports) = (⟨.noError, some entry.inst, []⟩, map) := by
  simp [mapStep, mapFetch, hlookup, husable]

theorem mapStep_fetch_dead (hlookup : map.lookup sock = some entry)
    (husable : ¬ transports.usable sock entry = true) :
    mapStep map (.fetch sock transports) =
      (⟨.deadObject, none, [entry.ref]⟩, map.erase sock) := by
  simp [mapStep, mapFetch, hlookup, husable]

theorem mapStep_remove_none (hlookup : map.lookup sock = none) :
    mapStep map (.remove sock) = (⟨.nameNotFound, none, []⟩, map) := by
  simp [mapStep, mapRemove, hlookup]

theorem mapStep_remove_some (hlookup : map.lookup sock = some entry) :
    mapStep map (.remove sock) = (⟨.noError, none, [entry.ref]⟩, map.erase sock) := by
  simp [mapStep, mapRemove, hlookup]

end

/-- The map that the items and the free slots stand for. -/
def mapOf (mem : Mem) (items free : List Nat) : LimitedMap Int32 Entry :=
  LimitedMap.ofEntries (entries mem items) free.length

/-- The lookups of a map around the place that a search has found. -/
theorem lookup_mapOf_middle {pre post : List Nat} {cursor : Nat} (hfd : fdOf mem cursor = sock)
    (hpre : ∀ entry ∈ entries mem pre, entry.1 < sock) :
    (mapOf mem (pre ++ cursor :: post) free).lookup sock = some (entryOf mem cursor) := by
  rw [mapOf, entries_middle hfd, LimitedMap.ofEntries]
  refine (LimitedMap.lookupIn_middle _ ?_ sock).trans (if_pos rfl)
  exact fun entry hentry => Int32.ne_of_lt (hpre entry hentry)

theorem lookup_mapOf_none {pre post : List Nat}
    (hpre : ∀ entry ∈ entries mem pre, entry.1 < sock)
    (hpost : ∀ entry ∈ entries mem post, sock < entry.1) :
    (mapOf mem (pre ++ post) free).lookup sock = none := by
  refine LimitedMap.lookupIn_eq_none fun entry hentry => ?_
  rw [entries_append] at hentry
  rcases List.mem_append.mp hentry with h | h
  · exact Int32.ne_of_lt (hpre entry h)
  · exact fun heq => Int32.ne_of_lt (hpost entry h) heq.symm

/-- A call that does to the memory what is done to the map. -/
def Refines (holder : Nat) (result : Option (Outcome × Mem))
    (spec : Outcome × LimitedMap Int32 Entry) : Prop :=
  ∃ mem' items' free', result = some (spec.1, mem') ∧ Good mem' holder items' free' ∧
    mapOf mem' items' free' = spec.2

/-- Removing an item that a search has found. -/
theorem Good.removeItem {pre post : List Nat} {cursor : Nat} (hlocated : Located holder)
    (hgood : Good mem holder (pre ++ cursor :: post) free) (hfd : fdOf mem cursor = sock)
    (hpre : ∀ entry ∈ entries mem pre, entry.1 < sock)
    (hpost : ∀ entry ∈ entries mem post, sock < entry.1) :
    Good (removeItem mem holder cursor) holder (pre ++ post) (free ++ [cursor]) ∧
      mapOf (removeItem mem holder cursor) (pre ++ post) (free ++ [cursor]) =
        (mapOf mem (pre ++ cursor :: post) free).erase sock := by
  obtain ⟨hshape, hfields⟩ := hgood.shape.removeItem hlocated
  have hentries : entries (Holder.removeItem mem holder cursor) (pre ++ post) =
      entries mem (pre ++ post) := entries_congr (hfields.subset hshape.items_subset)
  refine ⟨⟨hshape, ?_⟩, ?_⟩
  · rw [hentries]
    refine hgood.sorted.sublist (List.Sublist.map _ ?_)
    exact (List.sublist_cons_self cursor post).append_left pre
  · rw [mapOf, mapOf, hentries, entries_append, entries_middle hfd, List.length_append,
      List.length_singleton]
    exact LimitedMap.ofEntries_erase _ (fun entry hentry => Int32.ne_of_lt (hpre entry hentry))
      (fun entry hentry heq => Int32.ne_of_lt (hpost entry hentry) heq.symm) _

theorem remove_refines (hlocated : Located holder) (hgood : Good mem holder items free)
    (sock : Int32) :
    Refines holder (remove mem holder sock) (mapStep (mapOf mem items free) (.remove sock)) := by
  rcases search_cases hgood.shape hgood.sorted sock with
    ⟨pre, cursor, post, rfl, hfd, hpre, hpost, hsearch, hfound⟩ |
    ⟨pre, post, rfl, hpre, hpost, hsearch, hfound⟩
  · obtain ⟨hgood', hmap⟩ := hgood.removeItem hlocated hfd hpre hpost
    rw [mapStep_remove_some (lookup_mapOf_middle hfd hpre)]
    refine ⟨removeItem mem holder cursor, pre ++ post, free ++ [cursor], ?_, hgood', hmap⟩
    rw [remove, hsearch, Option.map_some, if_pos hfound]
  · rw [mapStep_remove_none (lookup_mapOf_none hpre hpost)]
    refine ⟨mem, pre ++ post, free, ?_, hgood, rfl⟩
    rw [remove, hsearch, Option.map_some, if_neg (by rw [hfound]; decide)]

theorem fetch_refines (hlocated : Located holder) (hgood : Good mem holder items free)
    (sock : Int32) (transports : Transports) :
    Refines holder (fetch mem holder sock transports)
      (mapStep (mapOf mem items free) (.fetch sock transports)) := by
  rcases search_cases hgood.shape hgood.sorted sock with
    ⟨pre, cursor, post, rfl, hfd, hpre, hpost, hsearch, hfound⟩ |
    ⟨pre, post, rfl, hpre, hpost, hsearch, hfound⟩
  · by_cases husable : transports.usable sock (entryOf mem cursor) = true
    · rw [mapStep_fetch_usable (lookup_mapOf_middle hfd hpre) husable]
      refine ⟨mem, pre ++ cursor :: post, free, ?_, hgood, rfl⟩
      rw [fetch, hsearch, Option.map_some, if_pos hfound]
      simp only [if_pos husable]
    · obtain ⟨hgood', hmap⟩ := hgood.removeItem hlocated hfd hpre hpost
      rw [mapStep_fetch_dead (lookup_mapOf_middle hfd hpre) husable]
      refine ⟨removeItem mem holder cursor, pre ++ post, free ++ [cursor], ?_, hgood', hmap⟩
      rw [fetch, hsearch, Option.map_some, if_pos hfound]
      simp only [if_neg husable]
  · rw [mapStep_fetch_none (lookup_mapOf_none hpre hpost)]
    refine ⟨mem, pre ++ post, free, ?_, hgood, rfl⟩
    rw [fetch, hsearch, Option.map_some, if_neg (by rw [hfound]; decide)]

/-- Linking a filled item at the place that a search has found. -/
theorem Good.linkBefore {pre post : List Nat} {unit : Nat} (hlocated : Located holder)
    (hshape : Shape mem holder (pre ++ post) free [unit])
    (hsorted : Increasing (entries mem (pre ++ post))) (hfd : fdOf mem unit = sock)
    (hpre : ∀ entry ∈ entries mem pre, entry.1 < sock)
    (hpost : ∀ entry ∈ entries mem post, sock < entry.1) :
    Good (linkBefore mem unit (post.headD holder)) holder (pre ++ unit :: post) free ∧
      entries (linkBefore mem unit (post.headD holder)) (pre ++ unit :: post) =
        entries mem pre ++ (sock, entryOf mem unit) :: entries mem post := by
  obtain ⟨hlinked, hfields⟩ := hshape.linkBefore hlocated
  have hentries : entries (Holder.linkBefore mem unit (post.headD holder)) (pre ++ unit :: post) =
      entries mem pre ++ (sock, entryOf mem unit) :: entries mem post := by
    rw [entries_congr (hfields.subset hlinked.items_subset), entries_middle hfd]
  refine ⟨⟨hlinked, ?_⟩, hentries⟩
  rw [entries_append] at hsorted
  rw [hentries]
  exact increasing_middle _ hpre hpost hsorted

/-- The first statements of `insert`: a slot is taken and filled, and the queue is
as before. -/
theorem Good.newItem {unit : Nat} (hlocated : Located holder)
    (hgood : Good mem holder items (unit :: free)) (sock : Int32) (entry : Entry) :
    ∃ mem', slotMalloc mem (allocAt holder) sizeofSocketItem = (unit, mem') ∧
      Shape (fillItem mem' unit sock entry) holder items free [unit] ∧
      entries (fillItem mem' unit sock entry) items = entries mem items := by
  obtain ⟨mem', hmalloc, hshape, hfields⟩ := hgood.shape.slotMalloc hlocated
  have hsame : ∀ addr, addr < unit ∨ unit + 24 ≤ addr →
      fillItem mem' unit sock entry addr = mem' addr := fun addr haddr => fillItem_apply haddr
  obtain ⟨hfilled, hother⟩ := hshape.of_loose_change List.mem_cons_self hsame
  refine ⟨mem', hmalloc, hfilled, ?_⟩
  calc entries (fillItem mem' unit sock entry) items
      = entries mem' items :=
        entries_congr fun item hitem => hother item (List.mem_append_left _ hitem)
    _ = entries mem items := entries_congr (hfields.subset hgood.shape.items_subset)

/-- The replacement of an entry: the old item is given back and the new one linked
in its place. -/
theorem Good.replaceItem {pre post : List Nat} {unit cursor : Nat} (hlocated : Located holder)
    (hshape : Shape mem holder (pre ++ cursor :: post) free [unit])
    (hsorted : Increasing (entries mem (pre ++ cursor :: post))) (hfd : fdOf mem unit = sock)
    (hpre : ∀ entry ∈ entries mem pre, entry.1 < sock)
    (hpost : ∀ entry ∈ entries mem post, sock < entry.1) :
    Good (Holder.linkBefore (Holder.removeItem mem holder cursor) unit (post.headD holder)) holder
        (pre ++ unit :: post) (free ++ [cursor]) ∧
      entries (Holder.linkBefore (Holder.removeItem mem holder cursor) unit (post.headD holder))
          (pre ++ unit :: post) =
        entries mem pre ++ (sock, entryOf mem unit) :: entries mem post := by
  obtain ⟨hremoved, hfields⟩ := hshape.removeItem hlocated
  have hunit : unit ∈ allSlots holder := by
    refine hshape.slots.mem_iff.mp (List.mem_append_right _ List.mem_cons_self)
  have hkeep : ∀ part ⊆ pre ++ post,
      entries (Holder.removeItem mem holder cursor) part = entries mem part := fun part hpart =>
    entries_congr (hfields.subset (List.Subset.trans hpart hremoved.items_subset))
  have hkeepPre := hkeep pre (List.subset_append_left pre post)
  have hkeepPost := hkeep post (List.subset_append_right pre post)
  have hfd' : fdOf (Holder.removeItem mem holder cursor) unit = sock := by
    rw [fdOf_congr (hfields unit hunit), hfd]
  have hsorted' : Increasing (entries (Holder.removeItem mem holder cursor) (pre ++ post)) := by
    rw [hkeep _ (List.Subset.refl _)]
    refine hsorted.sublist (List.Sublist.map _ ?_)
    exact (List.sublist_cons_self cursor post).append_left pre
  have hresult := Good.linkBefore hlocated hremoved hsorted' hfd'
    (by rw [hkeepPre]; exact hpre) (by rw [hkeepPost]; exact hpost)
  rw [hkeepPre, hkeepPost, entryOf_congr (hfields unit hunit)] at hresult
  exact hresult

theorem insert_refines (hlocated : Located holder) (hgood : Good mem holder items free)
    (sock : Int32) (entry : Entry) :
    Refines holder (insert mem holder sock entry)
      (mapStep (mapOf mem items free) (.insert sock entry)) := by
  by_cases hnull : entry.inst = 0
  · rw [mapStep_insert_null hnull]
    exact ⟨mem, items, free, by rw [insert, if_pos hnull], hgood, rfl⟩
  cases free with
  | nil =>
      rw [mapStep_insert_full rfl]
      refine ⟨mem, items, [], ?_, hgood, rfl⟩
      rw [insert, if_neg hnull, slotMalloc_nil hgood.shape.ring]
      rfl
  | cons unit free =>
      have hunit : unit ≠ 0 := by
        have hbounds := hgood.shape.range (List.mem_append_left _
          (List.mem_append_right items List.mem_cons_self))
        omega
      obtain ⟨mem', hmalloc, hshape, hentries⟩ := hgood.newItem hlocated sock entry
      obtain ⟨filled, hfilled⟩ : ∃ filled, filled = fillItem mem' unit sock entry := ⟨_, rfl⟩
      have hfd : fdOf filled unit = sock := hfilled ▸ fdOf_fillItem mem' unit sock entry
      have hentry : entryOf filled unit = entry := hfilled ▸ entryOf_fillItem mem' unit sock entry
      rw [← hfilled] at hshape hentries
      have hsorted : Increasing (entries filled items) := hentries ▸ hgood.sorted
      have hmap : mapOf mem items (unit :: free) = mapOf filled items (unit :: free) := by
        rw [mapOf, mapOf, hentries]
      rw [insert, if_neg hnull, hmalloc]
      simp only [if_neg hunit, ← hfilled]
      rw [mapStep_insert hnull (Nat.succ_ne_zero _), hmap]
      rcases search_cases hshape hsorted sock with
        ⟨pre, cursor, post, rfl, hcursor, hpre, hpost, hsearch, hfound⟩ |
        ⟨pre, post, rfl, hpre, hpost, hsearch, hfound⟩
      · have hne : unit ≠ cursor := by
          rintro rfl
          exact (List.disjoint_of_nodup_append hshape.nodup)
            (List.mem_append_left _ (List.mem_append_right _ List.mem_cons_self))
            List.mem_cons_self
        obtain ⟨hlinked, hentries'⟩ := Good.replaceItem hlocated hshape hsorted hfd hpre hpost
        refine ⟨linkBefore (removeItem filled holder cursor) unit (post.headD holder),
          pre ++ unit :: post, free ++ [cursor], ?_, hlinked, ?_⟩
        · rw [hsearch, Option.map_some, if_pos hfound, if_pos hne, hshape.next_eq,
            lookup_mapOf_middle hcursor hpre]
          rfl
        · rw [mapOf, mapOf, hentries', hentry, entries_middle hcursor, List.length_append]
          exact LimitedMap.ofEntries_replace _ _
            (fun entry hentry => Int32.ne_of_lt (hpre entry hentry)) _
      · obtain ⟨hlinked, hentries'⟩ := Good.linkBefore hlocated hshape hsorted hfd hpre hpost
        refine ⟨linkBefore filled unit (post.headD holder), pre ++ unit :: post, free, ?_,
          hlinked, ?_⟩
        · rw [hsearch, Option.map_some, if_neg (by rw [hfound]; decide),
            lookup_mapOf_none hpre hpost]
          rfl
        · rw [mapOf, mapOf, hentries', hentry, entries_append]
          exact LimitedMap.ofEntries_insert _
            (fun entry hentry => Int32.ne_of_lt (hpre entry hentry))
            (fun entry hentry heq => Int32.ne_of_lt (hpost entry hentry) heq.symm) _

/-- Every call does what the same call does to the map. -/
theorem step_refines (hlocated : Located holder) (hgood : Good mem holder items free)
    (call : Call) :
    Refines holder (step holder mem call) (mapStep (mapOf mem items free) call) := by
  cases call with
  | insert sock entry => exact insert_refines hlocated hgood sock entry
  | fetch sock transports => exact fetch_refines hlocated hgood sock transports
  | remove sock => exact remove_refines hlocated hgood sock

/-- A whole sequence of calls, by induction on it. -/
theorem run_refines (hlocated : Located holder) (hgood : Good mem holder items free)
    (calls : List Call) :
    ∃ mem' items' free',
      run holder mem calls = some ((mapRun (mapOf mem items free) calls).1, mem') ∧
        Good mem' holder items' free' ∧
        mapOf mem' items' free' = (mapRun (mapOf mem items free) calls).2 := by
  induction calls generalizing mem items free with
  | nil => exact ⟨mem, items, free, rfl, hgood, rfl⟩
  | cons call calls ih =>
      obtain ⟨mem₁, items₁, free₁, hstep, hgood₁, hmap₁⟩ := step_refines hlocated hgood call
      obtain ⟨mem₂, items₂, free₂, hrun, hgood₂, hmap₂⟩ := ih hgood₁
      rw [hmap₁] at hrun hmap₂
      refine ⟨mem₂, items₂, free₂, ?_, hgood₂, hmap₂⟩
      rw [run, hstep, Option.bind_some]
      simp only [hrun, Option.map_some]
      rfl

theorem construct_good (hlocated : Located holder) (mem : Mem) :
    Good (construct mem holder) holder [] (allSlots holder) := by
  have htop := hlocated.top
  obtain ⟨first, hfirst⟩ : ∃ first, first =
    store32 (store32 (store32 mem (slotChunkMemAt (allocAt holder)) (arrayAt holder))
      (slotChunkSizeAt (allocAt holder)) (containerLimit * sizeofSocketItem)) (allocAt holder)
      sizeofSocketItem := ⟨_, rfl⟩
  have hready : Ready first (allocAt holder) sizeofSocketItem (arrayAt holder)
      (containerLimit * sizeofSocketItem) := by
    refine ⟨?_, ?_, ?_, by simp only [allocAt]; omega, by decide,
      by simp only [arrayAt]; omega, by decide⟩
    · rw [hfirst, load32_store32_same]
      rfl
    · rw [hfirst, load32_store32_of_apart (Or.inl (by simp only [slotChunkMemAt]; omega)),
        load32_store32_of_apart (Or.inr (by simp only [slotChunkMemAt, slotChunkSizeAt]; omega)),
        load32_store32_same]
      exact Nat.mod_eq_of_lt (by simp only [arrayAt]; omega)
    · rw [hfirst, load32_store32_of_apart (Or.inl (by simp only [slotChunkSizeAt]; omega)),
        load32_store32_same]
      rfl
  obtain ⟨second, hinit, hring, hready', huntouched⟩ := initSlotAllocator_spec hready (by decide)
    (by decide) (by simp only [allocAt, arrayAt]; omega)
    (by simp only [arrayAt, containerLimit, sizeofSocketItem]; omega)
  have hconstruct : construct mem holder =
      store32 (store32 second (nextAt holder) holder) (prevAt holder) holder := by
    rw [construct, ← hfirst, hinit]
  rw [hconstruct]
  have hother : ∀ addr, holder + 12 ≤ addr →
      store32 (store32 second (nextAt holder) holder) (prevAt holder) holder addr =
        second addr := by
    intro addr hlow
    rw [store32_apply (by simp only [prevAt]; omega), store32_apply (by simp only [nextAt]; omega)]
  have hself : offsetNode 4 (holder % wordModulus) = prevAt holder := by
    rw [Nat.mod_eq_of_lt (by omega), offsetNode_four (by simp only [prevAt]; omega)]
  refine ⟨⟨⟨⟨?_, ?_⟩, trivial⟩, ?_, ?_, ?_⟩, List.Pairwise.nil⟩
  · rw [nextOf, load32_store32_same]
    exact hself
  · rw [prevOf, load32_store32_of_apart (Or.inl (by simp only [prevAt]; omega)),
      show prevAt holder + 4 = nextAt holder from rfl, load32_store32_same]
    exact hself
  · refine ring_congr ?_ hring
    intro link hlink addr hlow hhigh
    refine hother addr ?_
    rcases List.mem_cons.mp hlink with rfl | hslot
    · simp only [freeHead, allocAt] at hlow
      omega
    · have hbounds := mem_allSlots hslot
      omega
  · refine ready_congr ?_ ?_ hready'
    · exact fun addr hlow _ => hother addr (by omega)
    · exact fun addr hlow _ => hother addr (by omega)
  · simp

/-- The map of a holder that was just constructed is empty. -/
theorem mapOf_nil (mem : Mem) (holder : Nat) :
    mapOf mem [] (allSlots holder) = LimitedMap.empty containerLimit := by
  rw [mapOf, allSlots, length_slotsFrom]
  rfl

end

/-- `SocketHolder` is a finite map. After any sequence of calls the outcomes are
those of the map from descriptors with room for `CONTAINER_LIMIT` entries, and so
are the entries and the room that are left; the queue is strictly increasing, and
no slot is lost. -/
theorem run_is_map {holder : Nat} (hlocated : Located holder) (mem : Mem) (calls : List Call) :
    ∃ mem', run holder (construct mem holder) calls =
        some ((mapRun (LimitedMap.empty containerLimit) calls).1, mem') ∧
      view mem' holder = (mapRun (LimitedMap.empty containerLimit) calls).2 ∧
      ((queued mem' holder).Pairwise fun first second => fdOf mem' first < fdOf mem' second) ∧
      (queued mem' holder).length + (freeSlots mem' holder).length = containerLimit := by
  obtain ⟨mem', items, free, hrun, hgood, hmap⟩ :=
    run_refines hlocated (construct_good hlocated mem) calls
  rw [mapOf_nil] at hrun hmap
  refine ⟨mem', hrun, ?_, ?_, ?_⟩
  · rw [hgood.shape.view_eq]
    exact hmap
  · have hsorted := hgood.sorted
    rw [Increasing, entries, List.pairwise_map] at hsorted
    rw [hgood.shape.queued_eq]
    exact hsorted
  · rw [hgood.shape.queued_eq, hgood.shape.freeSlots_eq]
    exact hgood.shape.length

/-- A holder at address 4096: two transports register, the second with the number
of the first, and a fetch finds the second. -/
theorem run_is_map_replacing : Located 4096 ∧ ∃ mem',
    run 4096 (construct (fun _ => 0) 4096)
        [.insert 7 ⟨0x5000, 0x6000⟩, .insert 7 ⟨0x5100, 0x6100⟩,
          .fetch 7 ⟨fun _ => true, fun _ => 7⟩] =
      some ([⟨.noError, none, []⟩, ⟨.noError, none, [0x6000]⟩, ⟨.noError, some 0x5100, []⟩], mem') ∧
      (queued mem' 4096).length + (freeSlots mem' 4096).length = containerLimit := by
  have hlocated : Located 4096 := ⟨by decide, by decide⟩
  obtain ⟨mem', hrun, -, -, hcount⟩ := run_is_map hlocated (fun _ => 0)
    [.insert 7 ⟨0x5000, 0x6000⟩, .insert 7 ⟨0x5100, 0x6100⟩, .fetch 7 ⟨fun _ => true, fun _ => 7⟩]
  refine ⟨hlocated, mem', hrun.trans ?_, hcount⟩
  have houtcomes : (mapRun (LimitedMap.empty containerLimit)
      [.insert 7 ⟨0x5000, 0x6000⟩, .insert 7 ⟨0x5100, 0x6100⟩,
        .fetch 7 ⟨fun _ => true, fun _ => 7⟩]).1 =
      [⟨.noError, none, []⟩, ⟨.noError, none, [0x6000]⟩, ⟨.noError, some 0x5100, []⟩] := by
    decide +kernel
  rw [houtcomes]

end McuProxy.Net.Holder
