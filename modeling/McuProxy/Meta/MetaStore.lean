/-
# The metadata of buffers

A `MetaBuffer` has a table of at most twelve items. An item has an interned name,
a type and a union with one member for each of six types; setting a value writes
the type and the member, and finding one reads the member if the type is right.
Names are compared as pointers, so whether two texts are the same name is left to
the token pool, which all buffers share.

What a buffer stands for is a map from names to the last value that was set. The
value of one member is never read through another one: the type of an item always
says which member was written last.
-/

import McuProxy.Meta.TokenPool
import McuProxy.Math.Machine

namespace McuProxy.Meta

open McuProxy.Math McuProxy.Memory

/-- `Type`. -/
inductive ItemType
  | int32
  | int64
  | size
  | float
  | double
  | pointer
  deriving DecidableEq

/-- What the member of the union for a type holds. Floating point values are
taken by their bits, sizes and addresses as numbers. -/
def ItemType.Member : ItemType → Type
  | .int32 => Int32
  | .int64 => Int64
  | .size => Nat
  | .float => UInt32
  | .double => UInt64
  | .pointer => Nat

/-- The member of the union that was written last, with its value. -/
abbrev Stored : Type := Σ type : ItemType, type.Member

/-- Reading a member of the union; one that is not the one written last is
undefined. -/
def readMember (type : ItemType) (u : Stored) : Option type.Member :=
  if htype : u.1 = type then some (htype ▸ u.2) else none

@[simp]
theorem readMember_self (type : ItemType) (value : type.Member) :
    readMember type ⟨type, value⟩ = some value := by
  simp [readMember]

/-- `Item`. -/
structure Item where
  u : Stored
  mName : Option Nat
  mType : ItemType

/-- The items of a buffer. Those from `mNumItems` on are left over or were never
written. -/
structure MetaItems where
  mItems : Nat → Item
  mNumItems : Nat

/-- `kMaxNumItems`. -/
def kMaxNumItems : Nat := 12

/-- All buffers, with the pool that interns their names. -/
structure MetaStore where
  pool : TokenPool
  buffers : Nat → MetaItems

namespace MetaStore

variable (charValue : UInt8 → UInt32)

/-- The pool and the buffers as they are constructed, in memory with the given
contents. -/
def create (tokenBuffer : Mem) (mItems : Nat → Nat → Item) : MetaStore where
  pool := TokenPool.create tokenBuffer
  buffers buffer := ⟨mItems buffer, 0⟩

/-- The loop that looks for a name among the items from `i` on. -/
def search (mItems : Nat → Item) (name : Option Nat) : Nat → Nat → Nat
  | 0, i => i
  | count + 1, i => if (mItems i).mName ≠ name then search mItems name count (i + 1) else i

def setBuffer (store : MetaStore) (buffer : Nat) (items : MetaItems) : MetaStore :=
  { store with buffers := Function.update store.buffers buffer items }

/-- `allocateItem`: the index of the item. The program ends when there is no room
for a new one. -/
def allocateItem (store : MetaStore) (buffer : Nat) (name : CString) :
    Option (Nat × MetaStore) := do
  let (name, pool) ← store.pool.atomize charValue name
  let items := store.buffers buffer
  let i := search items.mItems name items.mNumItems 0
  if i < items.mNumItems then some (i, { store with pool := pool })
  else if items.mNumItems < kMaxNumItems then
    some (i, { store with pool := pool }.setBuffer buffer
      ⟨Function.update items.mItems i { items.mItems i with mName := name }, items.mNumItems + 1⟩)
  else none

/-- `findItem`: the index of the item with the name and the type. -/
def findItem (store : MetaStore) (buffer : Nat) (name : CString) (type : ItemType) :
    Option (Option Nat × MetaStore) := do
  let (name, pool) ← store.pool.atomize charValue name
  let items := store.buffers buffer
  let i := search items.mItems name items.mNumItems 0
  if i < items.mNumItems then
    some (if (items.mItems i).mType = type then some i else none, { store with pool := pool })
  else some (none, { store with pool := pool })

/-- The setter of `BASIC_TYPE`. -/
def set (type : ItemType) (store : MetaStore) (buffer : Nat) (name : CString)
    (value : type.Member) : Option MetaStore := do
  let (i, store) ← store.allocateItem charValue buffer name
  let items := store.buffers buffer
  some (store.setBuffer buffer { items with
    mItems := Function.update items.mItems i
      { items.mItems i with mType := type, u := ⟨type, value⟩ } })

/-- The finder of `BASIC_TYPE`: the value, if it returns `true`. -/
def find (type : ItemType) (store : MetaStore) (buffer : Nat) (name : CString) :
    Option (Option type.Member × MetaStore) := do
  match ← store.findItem charValue buffer name type with
  | (none, store) => some (none, store)
  | (some i, store) =>
      let value ← readMember type ((store.buffers buffer).mItems i).u
      some (some value, store)

def setInt32 := set charValue .int32

def setInt64 := set charValue .int64

def setSize := set charValue .size

def setFloat := set charValue .float

def setDouble := set charValue .double

def setPointer := set charValue .pointer

def findInt32 := find charValue .int32

def findInt64 := find charValue .int64

def findSize := find charValue .size

def findFloat := find charValue .float

def findDouble := find charValue .double

def findPointer := find charValue .pointer

/-- `clear`. -/
def clear (store : MetaStore) (buffer : Nat) : MetaStore :=
  store.setBuffer buffer { store.buffers buffer with mNumItems := 0 }

/-- The calls on the buffers. -/
inductive StoreCall
  | set (type : ItemType) (buffer : Nat) (name : CString) (value : type.Member)
  | find (type : ItemType) (buffer : Nat) (name : CString)
  | clear (buffer : Nat)

/-- The setter for a type. -/
def setter : (type : ItemType) → MetaStore → Nat → CString → type.Member → Option MetaStore
  | .int32 => setInt32 charValue
  | .int64 => setInt64 charValue
  | .size => setSize charValue
  | .float => setFloat charValue
  | .double => setDouble charValue
  | .pointer => setPointer charValue

/-- The finder for a type. -/
def finder : (type : ItemType) → MetaStore → Nat → CString →
    Option (Option type.Member × MetaStore)
  | .int32 => findInt32 charValue
  | .int64 => findInt64 charValue
  | .size => findSize charValue
  | .float => findFloat charValue
  | .double => findDouble charValue
  | .pointer => findPointer charValue

theorem setter_eq (type : ItemType) : setter charValue type = set charValue type := by
  cases type <;> rfl

theorem finder_eq (type : ItemType) : finder charValue type = find charValue type := by
  cases type <;> rfl

/-- A call, with the value that a finder returned. -/
def serve (store : MetaStore) : StoreCall → Option (Option Stored × MetaStore)
  | .set type buffer name value =>
      (setter charValue type store buffer name value).map fun store => (none, store)
  | .find type buffer name =>
      (finder charValue type store buffer name).map fun result =>
        (result.1.map fun value => ⟨type, value⟩, result.2)
  | .clear buffer => some (none, store.clear buffer)

/-- For each buffer and each name the value that was set last, with its type. -/
abbrev Contents : Type := Nat → CString → Option Stored

/-- The contents after a call: a set counts for its buffer and name, a clear
empties its buffer. -/
def contentsStep (contents : Contents) : StoreCall → Contents
  | .set type buffer name value =>
      Function.update contents buffer
        (Function.update (contents buffer) name (some ⟨type, value⟩))
  | .find _ _ _ => contents
  | .clear buffer => Function.update contents buffer fun _ => none

/-- The call is defined, and a finder returns a value exactly when that value, of
its type, was set last. -/
def Answered (store : MetaStore) (contents : Contents) (call : StoreCall) : Prop :=
  ∃ answer next, store.serve charValue call = some (answer, next) ∧
    ∀ type buffer name, call = .find type buffer name → ∀ value : type.Member,
      answer = some ⟨type, value⟩ ↔ contents buffer name = some ⟨type, value⟩

/-- A call on the store, and on the contents beside it. -/
def storeStep (state : MetaStore × Contents) (call : StoreCall) : Option (MetaStore × Contents) :=
  (state.1.serve charValue call).map fun result => (result.2, contentsStep state.2 call)

/-- The name that a call interns. -/
def nameOf : StoreCall → Option CString
  | .set _ _ name _ => some name
  | .find _ _ name => some name
  | .clear _ => none

/-- The name that a call sets on a buffer. -/
def setOn (buffer : Nat) : StoreCall → Option CString
  | .set _ other name _ => if other = buffer then some name else none
  | _ => none

/-- The names of all calls. -/
def namesOf (calls : List StoreCall) : Finset CString := (calls.filterMap nameOf).toFinset

/-- The names that are set on a buffer. -/
def namesOn (buffer : Nat) (calls : List StoreCall) : Finset CString :=
  (calls.filterMap (setOn buffer)).toFinset

/-- The items of a buffer hold a map: there is one item for each of its names,
with the copy of the name in the table of the pool, the value, and the type that
the value was written with. -/
structure Keeps (table : List (CString × Nat)) (items : MetaItems) (names : List CString)
    (map : CString → Option Stored) : Prop where
  count : items.mNumItems = names.length
  distinct : names.Nodup
  items : ∀ i name, names[i]? = some name → ∃ copy stored, (name, copy) ∈ table ∧
    items.mItems i = ⟨stored, some copy, stored.1⟩ ∧ map name = some stored
  absent : ∀ name, name ∉ names → map name = none

section Items

variable {charValue} {table : List (CString × Nat)} {items : MetaItems} {names : List CString}
  {map : CString → Option Stored} {pool : TokenPool} {name : CString} {copy : Nat}

theorem Keeps.mono (hkeeps : Keeps table items names map) {table' : List (CString × Nat)}
    (htable : table ⊆ table') : Keeps table' items names map := by
  refine { hkeeps with items := fun i name hname => ?_ }
  obtain ⟨copy, stored, hcopy, hitem, hmap⟩ := hkeeps.items i name hname
  exact ⟨copy, stored, htable hcopy, hitem, hmap⟩

/-- The search for a copy stops where the name is. -/
theorem search_eq (hinterns : pool.Interns charValue table) (hcopy : (name, copy) ∈ table)
    {mItems : Nat → Item} (rest : List CString) (i : Nat)
    (hitems : ∀ k other, rest[k]? = some other → ∃ copy, (other, copy) ∈ table ∧
      (mItems (i + k)).mName = some copy) :
    search mItems (some copy) rest.length i = i + rest.idxOf name := by
  induction rest generalizing i with
  | nil => rfl
  | cons other rest ih =>
      obtain ⟨copy', hcopy', hname⟩ := hitems 0 other rfl
      rw [Nat.add_zero] at hname
      rw [List.length_cons, search, hname, List.idxOf_cons]
      by_cases hother : other = name
      · subst hother
        obtain ⟨-, rfl⟩ := Prod.mk.inj (hinterns.eq_of_name hcopy hcopy' rfl)
        simp
      · have hdiffer : some copy' ≠ some copy := by
          intro heq
          exact hother (hinterns.eq_of_copy hcopy' hcopy (Option.some.inj heq))
        rw [if_pos hdiffer, ih (i + 1) fun k next hnext => by
          simpa [Nat.add_assoc, Nat.add_comm 1 k] using hitems (k + 1) next hnext]
        rw [beq_eq_false_iff_ne.mpr hother, cond_false]
        omega

theorem Keeps.search_eq (hkeeps : Keeps table items names map)
    (hinterns : pool.Interns charValue table) (hcopy : (name, copy) ∈ table) :
    search items.mItems (some copy) items.mNumItems 0 = names.idxOf name := by
  rw [hkeeps.count, MetaStore.search_eq hinterns hcopy names 0, Nat.zero_add]
  intro k other hother
  obtain ⟨copy, stored, hcopy, hitem, -⟩ := hkeeps.items k other hother
  exact ⟨copy, hcopy, by rw [Nat.zero_add, hitem]⟩

/-- Writing the item of a name that is there. -/
theorem Keeps.write (hkeeps : Keeps table items names map) (hcopy : (name, copy) ∈ table)
    (hname : name ∈ names) (stored : Stored) :
    Keeps table ⟨Function.update items.mItems (names.idxOf name) ⟨stored, some copy, stored.1⟩,
        items.mNumItems⟩
      names (Function.update map name (some stored)) := by
  refine ⟨hkeeps.count, hkeeps.distinct, fun i other hother => ?_, fun other hother => ?_⟩
  · by_cases hi : i = names.idxOf name
    · subst hi
      rw [List.getElem?_idxOf hname] at hother
      obtain rfl := Option.some.inj hother
      exact ⟨copy, stored, hcopy, Function.update_self _ _ _, Function.update_self _ _ _⟩
    · have hne : other ≠ name := by
        rintro rfl
        obtain ⟨hlt, rfl⟩ := List.getElem?_eq_some_iff.mp hother
        exact hi (hkeeps.distinct.idxOf_getElem i hlt).symm
      obtain ⟨copy', stored', hcopy', hitem, hmap⟩ := hkeeps.items i other hother
      exact ⟨copy', stored', hcopy', (Function.update_of_ne hi _ _).trans hitem,
        (Function.update_of_ne hne _ _).trans hmap⟩
  · have hne : other ≠ name := fun heq => hother (heq ▸ hname)
    rw [Function.update_of_ne hne, hkeeps.absent other hother]

/-- Writing an item for a new name behind the others. -/
theorem Keeps.append (hkeeps : Keeps table items names map) (hcopy : (name, copy) ∈ table)
    (hname : name ∉ names) (stored : Stored) :
    Keeps table ⟨Function.update items.mItems names.length ⟨stored, some copy, stored.1⟩,
        items.mNumItems + 1⟩
      (names ++ [name]) (Function.update map name (some stored)) := by
  refine ⟨by simp [hkeeps.count], ?_, fun i other hother => ?_, fun other hother => ?_⟩
  · rw [List.nodup_append]
    refine ⟨hkeeps.distinct, List.nodup_singleton _, ?_⟩
    rintro other hother _ hlast rfl
    exact hname (List.mem_singleton.mp hlast ▸ hother)
  · rw [List.getElem?_append] at hother
    split_ifs at hother with hi
    · have hne : other ≠ name := fun heq => hname (heq ▸ List.mem_of_getElem? hother)
      obtain ⟨copy', stored', hcopy', hitem, hmap⟩ := hkeeps.items i other hother
      exact ⟨copy', stored', hcopy', (Function.update_of_ne (Nat.ne_of_lt hi) _ _).trans hitem,
        (Function.update_of_ne hne _ _).trans hmap⟩
    · obtain ⟨hlast, hother⟩ := List.getElem?_eq_some_iff.mp hother
      obtain rfl : i = names.length := by
        simp only [List.length_singleton] at hlast
        omega
      obtain rfl : name = other := by simpa using hother
      exact ⟨copy, stored, hcopy, Function.update_self _ _ _, Function.update_self _ _ _⟩
  · rw [List.mem_append, List.mem_singleton, not_or] at hother
    rw [Function.update_of_ne hother.2, hkeeps.absent other hother.1]

end Items

/-- The pool interns a table of names, and every buffer keeps its contents under
the names that are live in it. -/
structure StoreInv (store : MetaStore) (contents : Contents) (table : List (CString × Nat))
    (live : Nat → List CString) : Prop where
  interns : store.pool.Interns charValue table
  keeps : ∀ buffer, Keeps table (store.buffers buffer) (live buffer) (contents buffer)

section Calls

variable {charValue} {store : MetaStore} {contents : Contents} {table table' : List (CString × Nat)}
  {live : Nat → List CString} {next : TokenPool} {name : CString} {copy : Nat}

/-- The live names of a buffer after one was set. -/
def enlive (live : List CString) (name : CString) : List CString :=
  if name ∈ live then live else live ++ [name]

/-- Rewriting one buffer in a store whose pool has grown. -/
theorem StoreInv.setBuffer (hinv : StoreInv charValue store contents table live)
    (hnext : next.Interns charValue table') (htable : table ⊆ table') (buffer : Nat)
    {items : MetaItems} {names : List CString} {map : CString → Option Stored}
    (hitems : Keeps table' items names map) :
    StoreInv charValue ({ store with pool := next }.setBuffer buffer items)
      (Function.update contents buffer map) table' (Function.update live buffer names) := by
  refine ⟨hnext, fun other => ?_⟩
  by_cases hother : other = buffer
  · subst hother
    simpa [MetaStore.setBuffer] using hitems
  · simpa [MetaStore.setBuffer, hother] using (hinv.keeps other).mono htable

/-- What a setter does, once its name is interned: the item of the name is
written, or a new one. -/
theorem set_eq (hinv : StoreInv charValue store contents table live)
    (hatomize : store.pool.atomize charValue name = some (some copy, next))
    (hnext : next.Interns charValue table') (htable : table ⊆ table')
    (hcopy : (name, copy) ∈ table') {buffer : Nat}
    (hlimit : (enlive (live buffer) name).length ≤ kMaxNumItems) (type : ItemType)
    (value : type.Member) :
    ∃ items, store.set charValue type buffer name value =
        some ({ store with pool := next }.setBuffer buffer items) ∧
      Keeps table' items (enlive (live buffer) name)
        (Function.update (contents buffer) name (some ⟨type, value⟩)) := by
  have hkeeps := (hinv.keeps buffer).mono htable
  have hsearch := hkeeps.search_eq hnext hcopy
  by_cases hname : name ∈ live buffer
  · have hindex : (live buffer).idxOf name < (store.buffers buffer).mNumItems := by
      rw [hkeeps.count]
      exact List.idxOf_lt_length_iff.mpr hname
    obtain ⟨copy', stored, hcopy', hitem, -⟩ :=
      hkeeps.items _ name (List.getElem?_idxOf hname)
    obtain ⟨-, rfl⟩ := Prod.mk.inj (hnext.eq_of_name hcopy' hcopy rfl)
    refine ⟨_, ?_, by
      rw [enlive, if_pos hname]
      exact hkeeps.write hcopy hname ⟨type, value⟩⟩
    simp [set, allocateItem, hatomize, hsearch, hindex, hitem, MetaStore.setBuffer]
  · have hindex : (live buffer).idxOf name = (store.buffers buffer).mNumItems := by
      rw [hkeeps.count]
      exact List.idxOf_eq_length_iff.mpr hname
    rw [enlive, if_neg hname, List.length_append, List.length_singleton, ← hkeeps.count] at hlimit
    refine ⟨_, ?_, by
      rw [enlive, if_neg hname]
      exact hkeeps.append hcopy hname ⟨type, value⟩⟩
    have hroom : (store.buffers buffer).mNumItems < kMaxNumItems := hlimit
    rw [← hkeeps.count]
    simp [set, allocateItem, hatomize, hsearch, hindex, hroom, MetaStore.setBuffer]

/-- What a finder does, once its name is interned. -/
theorem find_eq (hinv : StoreInv charValue store contents table live)
    (hatomize : store.pool.atomize charValue name = some (some copy, next))
    (hnext : next.Interns charValue table') (htable : table ⊆ table')
    (hcopy : (name, copy) ∈ table') (buffer : Nat) (type : ItemType) :
    ∃ answer, store.find charValue type buffer name = some (answer, { store with pool := next }) ∧
      ∀ value : type.Member, answer = some value ↔ contents buffer name = some ⟨type, value⟩ := by
  have hkeeps := (hinv.keeps buffer).mono htable
  have hsearch := hkeeps.search_eq hnext hcopy
  by_cases hname : name ∈ live buffer
  · have hindex : (live buffer).idxOf name < (store.buffers buffer).mNumItems := by
      rw [hkeeps.count]
      exact List.idxOf_lt_length_iff.mpr hname
    obtain ⟨copy', ⟨type', value'⟩, -, hitem, hmap⟩ :=
      hkeeps.items _ name (List.getElem?_idxOf hname)
    rw [hmap]
    by_cases htype : type' = type
    · subst htype
      refine ⟨some value', ?_, fun value => ?_⟩
      · simp [find, findItem, hatomize, hsearch, hindex, hitem]
      · simp
    · refine ⟨none, ?_, fun value => ?_⟩
      · simp [find, findItem, hatomize, hsearch, hindex, hitem, htype]
      · simp [htype]
  · have hindex : ¬ (live buffer).idxOf name < (store.buffers buffer).mNumItems := by
      rw [hkeeps.count, List.idxOf_lt_length_iff]
      exact hname
    refine ⟨none, ?_, fun value => ?_⟩
    · simp [find, findItem, hatomize, hsearch, hindex]
    · simp [hkeeps.absent name hname]

end Calls

/-- A name is interned, and what is left of the buffer is enough for the names of
the calls that follow. -/
theorem intern_and_go {pool : TokenPool} {table : List (CString × Nat)}
    (hinterns : pool.Interns charValue table) {name : CString} {calls : List StoreCall}
    (hroom : pool.bufferPtr +
      TokenPool.bytesOf (insert name (namesOf calls) \ (table.map Prod.fst).toFinset) <
        constTokenpoolSize) :
    ∃ copy next table', pool.atomize charValue name = some (some copy, next) ∧
      next.Interns charValue table' ∧ table ⊆ table' ∧ (name, copy) ∈ table' ∧
      next.bufferPtr + TokenPool.bytesOf (namesOf calls \ (table'.map Prod.fst).toFinset) <
        constTokenpoolSize := by
  have hinsert : insert name (namesOf calls) = (name :: calls.filterMap nameOf).toFinset := by
    rw [List.toFinset_cons, namesOf]
  rw [hinsert, TokenPool.bytesOf_sdiff_cons] at hroom
  have hhere : pool.bufferPtr + TokenPool.bytesOf ({name} \ (table.map Prod.fst).toFinset) <
      constTokenpoolSize := by omega
  obtain ⟨copy, next, table', hatomize, hnext, htable, hcopy, hnames⟩ :=
    hinterns.atomize_spec hhere
  have hfilled := hinterns.filled_insert charValue hnext hnames
  refine ⟨copy, next, table', hatomize, hnext, htable, hcopy, ?_⟩
  rw [hnames, namesOf]
  omega

/-- The names of a buffer after one was set. -/
theorem enlive_toFinset (live : List CString) (name : CString) :
    (enlive live name).toFinset = insert name live.toFinset := by
  unfold enlive
  split_ifs with hname
  · rw [Finset.insert_eq_of_mem (List.mem_toFinset.mpr hname)]
  · ext other
    simp

theorem enlive_nodup {live : List CString} (hlive : live.Nodup) (name : CString) :
    (enlive live name).Nodup := by
  unfold enlive
  split_ifs with hname
  · exact hlive
  · simpa [List.concat_eq_append] using List.Nodup.concat hname hlive

/-- A store in order, with room for the names of the calls to come. -/
structure HasRoom (store : MetaStore) (contents : Contents) (table : List (CString × Nat))
    (live : Nat → List CString) (calls : List StoreCall) : Prop where
  inv : StoreInv charValue store contents table live
  pool : store.pool.bufferPtr +
    TokenPool.bytesOf (namesOf calls \ (table.map Prod.fst).toFinset) < constTokenpoolSize
  items : ∀ buffer, ((live buffer).toFinset ∪ namesOn buffer calls).card ≤ kMaxNumItems

/-- A call is answered, and the calls after it find their room. -/
def Served (store : MetaStore) (contents : Contents) (call : StoreCall)
    (calls : List StoreCall) : Prop :=
  Answered charValue store contents call ∧
    ∃ next table live, storeStep charValue (store, contents) call =
        some (next, contentsStep contents call) ∧
      HasRoom charValue next (contentsStep contents call) table live calls

section Serving

variable {charValue} {store : MetaStore} {contents : Contents} {table : List (CString × Nat)}
  {live : Nat → List CString} {calls : List StoreCall}

theorem namesOn_set (type : ItemType) (buffer other : Nat) (name : CString)
    (value : type.Member) :
    namesOn other (.set type buffer name value :: calls) =
      if buffer = other then insert name (namesOn other calls) else namesOn other calls := by
  by_cases hother : buffer = other <;> simp [namesOn, setOn, hother]

/-- A name that is set moves from the names to come to the live ones. -/
theorem enlive_union (names : List CString) (calls : List StoreCall) (type : ItemType)
    (buffer : Nat) (name : CString) (value : type.Member) :
    (enlive names name).toFinset ∪ namesOn buffer calls =
      names.toFinset ∪ namesOn buffer (.set type buffer name value :: calls) := by
  rw [enlive_toFinset, namesOn_set, if_pos rfl, Finset.insert_union, Finset.union_insert]

theorem HasRoom.set {type : ItemType} {buffer : Nat} {name : CString} {value : type.Member}
    (hroom : HasRoom charValue store contents table live (.set type buffer name value :: calls)) :
    Served charValue store contents (.set type buffer name value) calls := by
  have hinv := hroom.inv
  have hnames : namesOf (.set type buffer name value :: calls) =
      insert name (namesOf calls) := by simp [namesOf, nameOf]
  obtain ⟨copy, next, table', hatomize, hnext, htable, hcopy, hleft⟩ :=
    intern_and_go charValue hinv.interns (hnames ▸ hroom.pool)
  have hunion := enlive_union (live buffer) calls type buffer name value
  have hlive : (enlive (live buffer) name).length ≤ kMaxNumItems := by
    rw [← List.toFinset_card_of_nodup (enlive_nodup (hinv.keeps buffer).distinct name)]
    exact (Finset.card_le_card Finset.subset_union_left).trans (hunion ▸ hroom.items buffer)
  obtain ⟨items, hset, hitems⟩ := set_eq hinv hatomize hnext htable hcopy hlive type value
  have hserve : store.serve charValue (.set type buffer name value) =
      some (none, { store with pool := next }.setBuffer buffer items) := by
    rw [serve, setter_eq, hset, Option.map_some]
  refine ⟨⟨_, _, hserve, fun _ _ _ hcall => by cases hcall⟩, _, _, _,
    by rw [storeStep, hserve, Option.map_some], hinv.setBuffer hnext htable buffer hitems, hleft,
    fun other => ?_⟩
  by_cases hother : other = buffer
  · subst hother
    rw [Function.update_self, hunion]
    exact hroom.items other
  · have hkept := hroom.items other
    rw [namesOn_set, if_neg fun heq => hother heq.symm] at hkept
    rwa [Function.update_of_ne hother]

theorem HasRoom.find {type : ItemType} {buffer : Nat} {name : CString}
    (hroom : HasRoom charValue store contents table live (.find type buffer name :: calls)) :
    Served charValue store contents (.find type buffer name) calls := by
  have hinv := hroom.inv
  have hnames : namesOf (.find type buffer name :: calls) =
      insert name (namesOf calls) := by simp [namesOf, nameOf]
  obtain ⟨copy, next, table', hatomize, hnext, htable, hcopy, hleft⟩ :=
    intern_and_go charValue hinv.interns (hnames ▸ hroom.pool)
  obtain ⟨answer, hfind, hanswer⟩ := find_eq hinv hatomize hnext htable hcopy buffer type
  have hserve : store.serve charValue (.find type buffer name) =
      some (answer.map fun value => ⟨type, value⟩, { store with pool := next }) := by
    rw [serve, finder_eq, hfind, Option.map_some]
  refine ⟨⟨_, _, hserve, ?_⟩, { store with pool := next }, table', live,
    by rw [storeStep, hserve, Option.map_some],
    ⟨hnext, fun other => (hinv.keeps other).mono htable⟩, hleft, hroom.items⟩
  rintro _ _ _ ⟨⟩ value
  rw [← hanswer value]
  cases answer <;> simp

theorem HasRoom.clear {buffer : Nat}
    (hroom : HasRoom charValue store contents table live (.clear buffer :: calls)) :
    Served charValue store contents (.clear buffer) calls := by
  have hempty : Keeps table { store.buffers buffer with mNumItems := 0 } [] fun _ => none :=
    ⟨rfl, List.nodup_nil, by simp, fun _ _ => rfl⟩
  refine ⟨⟨_, _, rfl, fun _ _ _ hcall => by cases hcall⟩, _, table, _, rfl,
    hroom.inv.setBuffer hroom.inv.interns (List.Subset.refl _) buffer hempty, hroom.pool,
    fun other => ?_⟩
  refine (Finset.card_le_card (Finset.union_subset_union_left ?_)).trans (hroom.items other)
  by_cases hother : other = buffer
  · subst hother
    simp
  · rw [Function.update_of_ne hother]

/-- From any store that is in order, calls that find room for their names are
answered. -/
theorem HasRoom.answered (hroom : HasRoom charValue store contents table live calls) :
    Promised (storeStep charValue) (fun state call => Answered charValue state.1 state.2 call)
      (store, contents) calls := by
  induction calls generalizing store contents table live with
  | nil => trivial
  | cons call calls ih =>
      have hserved : Served charValue store contents call calls := by
        cases call with
        | set type buffer name value => exact hroom.set
        | find type buffer name => exact hroom.find
        | clear buffer => exact hroom.clear
      obtain ⟨hanswered, next, table', live', hstep, hnext⟩ := hserved
      exact Promised.cons hanswered hstep (ih hnext)

end Serving

/-- For every sequence of calls on any number of buffers whose names fit the
token pool, and of which no buffer is set more than twelve, every call is defined
and every finder returns the value that was set last, if it has the right type. -/
theorem store_finds_last_set (tokenBuffer : Mem) (mItems : Nat → Nat → Item)
    (calls : List StoreCall)
    (hpool : TokenPool.bytesOf (namesOf calls) < constTokenpoolSize)
    (hnames : ∀ buffer, (namesOn buffer calls).card ≤ kMaxNumItems) :
    Promised (storeStep charValue) (fun state call => Answered charValue state.1 state.2 call)
      (create tokenBuffer mItems, fun _ _ => none) calls := by
  have hstart : StoreInv charValue (create tokenBuffer mItems) (fun _ _ => none) [] fun _ => [] :=
    ⟨TokenPool.create_interns charValue tokenBuffer, fun _ =>
      ⟨rfl, List.nodup_nil, by simp, fun _ _ => rfl⟩⟩
  refine HasRoom.answered ⟨hstart, ?_, fun buffer => ?_⟩
  · simpa [create, TokenPool.create] using hpool
  · simpa using hnames buffer

/-- One name set with two types, found with each, and cleared. -/
theorem store_finds_last_set_retyped :
    Promised (storeStep UInt8.toUInt32)
      (fun state call => Answered UInt8.toUInt32 state.1 state.2 call)
      (create (fun _ => 0) (fun _ _ => ⟨⟨.size, (0 : Nat)⟩, none, .size⟩), fun _ _ => none)
      [.set .int32 0 ⟨[97], by decide⟩ (5 : Int32), .set .int64 0 ⟨[97], by decide⟩ (7 : Int64),
        .set .int32 1 ⟨[97], by decide⟩ (9 : Int32), .find .int32 0 ⟨[97], by decide⟩,
        .find .int64 0 ⟨[97], by decide⟩, .clear 0, .find .int64 0 ⟨[97], by decide⟩] :=
  store_finds_last_set _ _ _ _ (by decide) fun _ =>
    (List.toFinset_card_le _).trans ((List.length_filterMap_le _ _).trans (by decide))

end MetaStore

end McuProxy.Meta
