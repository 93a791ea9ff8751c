/-
# The token pool

`TokenPool` interns names: the first time it is asked for a name it copies the
name behind the others in a fixed buffer, and from then on it answers with that
copy. The copies are found again through 128 rows, chosen by a hash of the first
characters of the name.

When the buffer has no room left `alloc_nolock` returns a null pointer. It is
answered, and it is put into the row like any other copy, where the next search
of the row hands it to `strcmp`.
-/

import McuProxy.Memory.Strings
import Mathlib.Algebra.BigOperators.Group.Finset.Basic

namespace McuProxy.Meta

open McuProxy.Math McuProxy.Memory

/-- `CONST_TOKENPOOL_SIZE`. -/
def constTokenpoolSize : Nat := 65536

/-- `CONST_TOKENPOOL_ROWS`. -/
def constTokenpoolRows : Nat := 128

/-- The pool. A pointer is an offset into `tokenBuffer`, or null. -/
structure TokenPool where
  mRows : Nat → List (Option Nat)
  tokenBuffer : Mem
  bufferPtr : Nat

namespace TokenPool

variable (charValue : UInt8 → UInt32)

/-- A number of bytes, converted to `int`. -/
def toInt (n : Nat) : Int := (n + 2147483648 : Int) % 4294967296 - 2147483648

/-- `Hash`. -/
def hash (name : CString) : UInt32 :=
  let count := toInt name.strlen
  djb2 charValue name.1 (if count < 0 ∨ count ≥ 7 then 7 else count.toNat) 5381

/-- The constructor; what is in the buffer is whatever was there before. -/
def create (tokenBuffer : Mem) : TokenPool where
  mRows _ := []
  tokenBuffer := tokenBuffer
  bufferPtr := 0

/-- `alloc_nolock`. A copy that does not fit the buffer is undefined. -/
def allocNolock (pool : TokenPool) (name : CString) : Option (Option Nat × TokenPool) :=
  let size := toInt (1 + name.strlen)
  if pool.bufferPtr + size ≥ constTokenpoolSize then some (none, pool)
  else if pool.bufferPtr + name.strlen + 1 ≤ constTokenpoolSize then
    some (some pool.bufferPtr, { pool with
      tokenBuffer := strcpy pool.tokenBuffer pool.bufferPtr name
      bufferPtr := (pool.bufferPtr + size).toNat })
  else none

/-- The search of a row for a name. Comparing with a null pointer is undefined. -/
def findEntry (pool : TokenPool) (name : CString) : List (Option Nat) → Option (Option Nat)
  | [] => some none
  | none :: _ => none
  | some item :: entry => do
      if ← strcmpEq pool.tokenBuffer constTokenpoolSize item name.1 then some (some item)
      else findEntry pool name entry

/-- The row of a name. -/
def rowOf (name : CString) : Nat := (hash charValue name).toNat % constTokenpoolRows

/-- `atomize_internal`. -/
def atomize (pool : TokenPool) (name : CString) : Option (Option Nat × TokenPool) := do
  let index := rowOf charValue name
  match ← pool.findEntry name (pool.mRows index) with
  | some item => some (some item, pool)
  | none =>
      let (item, pool) ← pool.allocNolock name
      some (item, { pool with
        mRows := Function.update pool.mRows index (pool.mRows index ++ [item]) })

/-- A sequence of calls: each name with what was answered. -/
def atomizeAll (pool : TokenPool) : List CString →
    Option (List (CString × Option Nat) × TokenPool)
  | [] => some ([], pool)
  | name :: names => do
      let (item, pool) ← pool.atomize charValue name
      let (answers, pool) ← pool.atomizeAll names
      some ((name, item) :: answers, pool)

/-- The law of a sequence of calls: every answer is a pointer that spells its
name after all the calls, and two answers are the same pointer exactly when they
are for the same name. -/
def InterningLaw (pool : TokenPool) (names : List CString) : Prop :=
  ∃ answers final, pool.atomizeAll charValue names = some (answers, final) ∧
    (∀ answer ∈ answers, ∃ item, answer.2 = some item ∧
      Spells final.tokenBuffer item answer.1.1) ∧
    ∀ first ∈ answers, ∀ second ∈ answers, first.2 = second.2 ↔ first.1 = second.1

/-- The bytes that a set of names takes. -/
def bytesOf (names : Finset CString) : Nat := ∑ name ∈ names, (name.strlen + 1)

/-- The pool holds the copies of a table of names: the rows point to them, they
are spelled one behind the other, and there is one for each name. -/
structure Interns (pool : TokenPool) (table : List (CString × Nat)) : Prop where
  rows : ∀ index, pool.mRows index =
    (table.filter fun entry => rowOf charValue entry.1 = index).map fun entry => some entry.2
  spelled : ∀ entry ∈ table, Spells pool.tokenBuffer entry.2 entry.1.1 ∧
    entry.2 + entry.1.strlen < pool.bufferPtr
  distinct : (table.map Prod.fst).Nodup
  filled : pool.bufferPtr = bytesOf (table.map Prod.fst).toFinset
  room : pool.bufferPtr < constTokenpoolSize

theorem create_interns (tokenBuffer : Mem) : Interns charValue (create tokenBuffer) [] :=
  ⟨fun _ => rfl, by simp, List.nodup_nil, rfl, by simp [create, constTokenpoolSize]⟩

section Calls

variable {charValue} {pool : TokenPool} {table : List (CString × Nat)} {name : CString}

/-- A small number of bytes is not changed by its conversion. -/
theorem toInt_eq {n : Nat} (hsmall : n < 2147483648) : toInt n = n := by
  unfold toInt
  omega

/-- The search of a row finds the copy with the name. -/
theorem findEntry_eq (entries : List (CString × Nat))
    (hspelled : ∀ entry ∈ entries, Spells pool.tokenBuffer entry.2 entry.1.1 ∧
      entry.2 + entry.1.strlen < constTokenpoolSize) :
    pool.findEntry name (entries.map fun entry => some entry.2) =
      some ((entries.find? fun entry => entry.1 = name).map Prod.snd) := by
  induction entries with
  | nil => rfl
  | cons entry entries ih =>
      obtain ⟨⟨hspells, hlimit⟩, hrest⟩ := List.forall_mem_cons.mp hspelled
      have hcompare := strcmpEq_spells hspells hlimit entry.1.2 name.2
      by_cases hname : entry.1 = name
      · subst hname
        simp [findEntry, hcompare]
      · have hbytes : ¬ entry.1.1 = name.1 := fun heq => hname (Subtype.ext heq)
        simp [findEntry, hcompare, hbytes, hname, ih hrest]

namespace Interns

theorem findEntry_row (hinterns : Interns charValue pool table) (name : CString) :
    pool.findEntry name (pool.mRows (rowOf charValue name)) =
      some ((table.find? fun entry => entry.1 = name).map Prod.snd) := by
  -- a name that is equal is in the same row
  have hrow : (fun entry : CString × Nat => decide (rowOf charValue entry.1 = rowOf charValue name ∧
      entry.1 = name)) = fun entry => decide (entry.1 = name) := by
    funext entry
    by_cases hname : entry.1 = name
    · simp [hname]
    · simp [hname]
  rw [hinterns.rows, findEntry_eq, List.find?_filter]
  · simp only [decide_eq_true_eq, hrow]
  · intro entry hentry
    obtain ⟨hspells, hbelow⟩ := hinterns.spelled entry (List.mem_of_mem_filter hentry)
    exact ⟨hspells, hbelow.trans hinterns.room⟩

/-- One name has one copy. -/
theorem eq_of_name (hinterns : Interns charValue pool table) {first second : CString × Nat}
    (hfirst : first ∈ table) (hsecond : second ∈ table) (hname : first.1 = second.1) :
    first = second :=
  List.inj_on_of_nodup_map hinterns.distinct hfirst hsecond hname

/-- One copy has one name. -/
theorem eq_of_copy (hinterns : Interns charValue pool table) {first second : CString × Nat}
    (hfirst : first ∈ table) (hsecond : second ∈ table) (hcopy : first.2 = second.2) :
    first.1 = second.1 :=
  Subtype.ext ((hinterns.spelled first hfirst).1.unique
    (hcopy ▸ (hinterns.spelled second hsecond).1) first.1.2 second.1.2)

/-- A name that was interned before is answered with its copy. -/
theorem atomize_known (hinterns : Interns charValue pool table) {item : Nat}
    (hmem : (name, item) ∈ table) : pool.atomize charValue name = some (some item, pool) := by
  have hfind : (table.find? fun entry => entry.1 = name) = some (name, item) := by
    cases hcase : table.find? fun entry => entry.1 = name with
    | none => exact absurd (List.find?_eq_none.mp hcase _ hmem) (by simp)
    | some entry =>
        have hname : entry.1 = name := by simpa using List.find?_some hcase
        rw [hinterns.eq_of_name (List.mem_of_find?_eq_some hcase) hmem hname]
  simp [atomize, hinterns.findEntry_row, hfind]

/-- A new name is looked for in vain, and then copied. -/
theorem atomize_unknown (hinterns : Interns charValue pool table)
    (hnew : name ∉ table.map Prod.fst) :
    pool.atomize charValue name = (pool.allocNolock name).map fun result =>
      (result.1, { result.2 with
        mRows := (Function.update result.2.mRows (rowOf charValue name)
          (result.2.mRows (rowOf charValue name) ++ [result.1])) }) := by
  have hfind : (table.find? fun entry => entry.1 = name) = none := by
    refine List.find?_eq_none.mpr fun entry hentry => ?_
    have hother : entry.1 ≠ name := fun heq => hnew (List.mem_map.mpr ⟨entry, hentry, heq⟩)
    simpa using hother
  rw [atomize, hinterns.findEntry_row, hfind]
  generalize pool.allocNolock name = result
  cases result with
  | none => rfl
  | some result => rfl

/-- With room for it, a new name gets a copy behind the others. -/
theorem atomize_new (hinterns : Interns charValue pool table) (hnew : name ∉ table.map Prod.fst)
    (hroom : pool.bufferPtr + (name.strlen + 1) < constTokenpoolSize) :
    ∃ next, pool.atomize charValue name = some (some pool.bufferPtr, next) ∧
      Interns charValue next (table ++ [(name, pool.bufferPtr)]) := by
  have hsize : toInt (1 + name.strlen) = ((1 + name.strlen : Nat) : Int) := by
    apply toInt_eq
    simp only [constTokenpoolSize] at hroom
    omega
  have halloc : pool.allocNolock name = some (some pool.bufferPtr, { pool with
      tokenBuffer := strcpy pool.tokenBuffer pool.bufferPtr name
      bufferPtr := pool.bufferPtr + (name.strlen + 1) }) := by
    have hnext : ((pool.bufferPtr : Int) + ((1 + name.strlen : Nat) : Int)).toNat =
        pool.bufferPtr + (name.strlen + 1) := by omega
    rw [allocNolock, hsize, if_neg (by omega), if_pos (by omega), hnext]
  refine ⟨_, by rw [hinterns.atomize_unknown hnew, halloc, Option.map_some], ?_⟩
  refine ⟨fun index => ?_, fun entry hentry => ?_, ?_, ?_, hroom⟩
  · by_cases hindex : index = rowOf charValue name
    · subst hindex
      simp [hinterns.rows]
    · have hother : ¬ rowOf charValue name = index := fun heq => hindex heq.symm
      simp [hinterns.rows, hindex, hother, List.filter_append]
  · rcases List.mem_append.mp hentry with hentry | hentry
    · obtain ⟨hspells, hbelow⟩ := hinterns.spelled entry hentry
      refine ⟨hspells.congr fun other _ hhigh => ?_, by dsimp only; omega⟩
      exact writeBytes_apply (.inl (lt_of_lt_of_le hhigh hbelow))
    · obtain rfl := List.mem_singleton.mp hentry
      exact ⟨strcpy_spells _ _ _, by dsimp only; omega⟩
  · rw [List.map_append, List.nodup_append]
    refine ⟨hinterns.distinct, List.nodup_singleton _, ?_⟩
    rintro other hother _ hlast rfl
    obtain rfl : other = name := List.mem_singleton.mp hlast
    exact hnew hother
  · have hinsert : ((table ++ [(name, pool.bufferPtr)]).map Prod.fst).toFinset =
        insert name (table.map Prod.fst).toFinset := by
      ext other
      simp
    rw [hinsert, bytesOf, Finset.sum_insert (by simpa using hnew), ← bytesOf, ← hinterns.filled]
    exact Nat.add_comm _ _

/-- Without room for it, a new name is answered with a null pointer, if at all. -/
theorem atomize_full (hinterns : Interns charValue pool table) (hnew : name ∉ table.map Prod.fst)
    (hfull : ¬ pool.bufferPtr + (name.strlen + 1) < constTokenpoolSize)
    {item : Option Nat} {next : TokenPool}
    (hanswer : pool.atomize charValue name = some (item, next)) : item = none := by
  rw [hinterns.atomize_unknown hnew, Option.map_eq_some_iff] at hanswer
  obtain ⟨result, halloc, hresult⟩ := hanswer
  obtain ⟨rfl, -⟩ := Prod.mk.inj hresult
  rw [allocNolock] at halloc
  split_ifs at halloc with htest hfit
  · obtain rfl := Option.some.inj halloc
    rfl
  · -- a copy that fits the buffer has a size that `int` can hold
    have hexact : toInt (1 + name.strlen) = ((1 + name.strlen : Nat) : Int) := by
      apply toInt_eq
      simp only [constTokenpoolSize] at hfit
      omega
    rw [hexact] at htest
    omega

/-- One call, with the table it leaves behind: the answer is the copy of the name
in it. -/
theorem atomize_spec (hinterns : Interns charValue pool table)
    (hroom : pool.bufferPtr + bytesOf ({name} \ (table.map Prod.fst).toFinset) <
      constTokenpoolSize) :
    ∃ item next table', pool.atomize charValue name = some (some item, next) ∧
      Interns charValue next table' ∧ table ⊆ table' ∧ (name, item) ∈ table' ∧
      (table'.map Prod.fst).toFinset = insert name (table.map Prod.fst).toFinset := by
  by_cases hknown : name ∈ table.map Prod.fst
  · obtain ⟨⟨_, item⟩, hmem, rfl⟩ := List.mem_map.mp hknown
    exact ⟨item, pool, table, hinterns.atomize_known hmem, hinterns, List.Subset.refl _, hmem,
      (Finset.insert_eq_of_mem (List.mem_toFinset.mpr hknown)).symm⟩
  · have hnew : ({name} : Finset CString) \ (table.map Prod.fst).toFinset = {name} := by
      rw [Finset.sdiff_eq_self_iff_disjoint, Finset.disjoint_singleton_left, List.mem_toFinset]
      exact hknown
    rw [hnew, bytesOf, Finset.sum_singleton] at hroom
    obtain ⟨next, hatomize, hnext⟩ := hinterns.atomize_new hknown hroom
    refine ⟨pool.bufferPtr, next, _, hatomize, hnext, List.subset_append_left _ _,
      List.mem_append_right _ (List.mem_singleton_self _), ?_⟩
    ext other
    simp

end Interns

end Calls

/-- The bytes for a sequence of names, given the names that are interned
already: those of the first one, and those of the others after it. -/
theorem bytesOf_sdiff_cons (name : CString) (names : List CString) (known : Finset CString) :
    bytesOf ((name :: names).toFinset \ known) =
      bytesOf ({name} \ known) + bytesOf (names.toFinset \ insert name known) := by
  have hsplit : (name :: names).toFinset \ known =
      ({name} \ known) ∪ (names.toFinset \ insert name known) := by
    ext other
    by_cases hname : other = name
    · simp [hname]
    · simp [hname]
  have hdisjoint : Disjoint (({name} : Finset CString) \ known)
      (names.toFinset \ insert name known) := by
    rw [Finset.disjoint_left]
    intro other hother hother'
    simp only [Finset.mem_sdiff, Finset.mem_singleton, Finset.mem_insert] at hother hother'
    exact hother'.2 (.inl hother.1)
  rw [hsplit, bytesOf, Finset.sum_union hdisjoint]
  rfl

/-- What is interned takes up the buffer from its start. -/
theorem Interns.filled_insert {pool next : TokenPool} {table table' : List (CString × Nat)}
    {name : CString} (hinterns : Interns charValue pool table)
    (hnext : Interns charValue next table')
    (hnames : (table'.map Prod.fst).toFinset = insert name (table.map Prod.fst).toFinset) :
    next.bufferPtr = pool.bufferPtr + bytesOf ({name} \ (table.map Prod.fst).toFinset) := by
  have hsplit : insert name (table.map Prod.fst).toFinset =
      (table.map Prod.fst).toFinset ∪ ({name} \ (table.map Prod.fst).toFinset) := by
    rw [Finset.union_sdiff_self_eq_union, Finset.union_comm, Finset.insert_eq]
  rw [hnext.filled, hinterns.filled, hnames, hsplit, bytesOf,
    Finset.sum_union Finset.disjoint_sdiff]
  rfl

/-- With room for all the new names, every call is answered with the copy of its
name. -/
theorem atomizeAll_of_room {pool : TokenPool} {table : List (CString × Nat)}
    (hinterns : Interns charValue pool table) (names : List CString)
    (hroom : pool.bufferPtr + bytesOf (names.toFinset \ (table.map Prod.fst).toFinset) <
      constTokenpoolSize) :
    ∃ answers final table', pool.atomizeAll charValue names = some (answers, final) ∧
      Interns charValue final table' ∧ table ⊆ table' ∧
      ∀ answer ∈ answers, ∃ item, answer.2 = some item ∧ (answer.1, item) ∈ table' := by
  induction names generalizing pool table with
  | nil => exact ⟨[], pool, table, rfl, hinterns, List.Subset.refl _, by simp⟩
  | cons name names ih =>
      rw [bytesOf_sdiff_cons] at hroom
      have hfirst : pool.bufferPtr + bytesOf ({name} \ (table.map Prod.fst).toFinset) <
          constTokenpoolSize := by omega
      obtain ⟨item, next, middle, hatomize, hnext, hgrown, hitem, hnames⟩ :=
        hinterns.atomize_spec hfirst
      have hfilled := hinterns.filled_insert charValue hnext hnames
      obtain ⟨answers, final, table', hrest, hfinal, hgrown', hanswers⟩ := ih hnext (by
        rw [hnames]
        omega)
      refine ⟨(name, some item) :: answers, final, table', ?_, hfinal,
        List.Subset.trans hgrown hgrown', List.forall_mem_cons.mpr
          ⟨⟨item, rfl, hgrown' hitem⟩, hanswers⟩⟩
      simp [atomizeAll, hatomize, hrest]

/-- If no call was answered with a null pointer, there was room for all the new
names. -/
theorem room_of_atomizeAll {pool : TokenPool} {table : List (CString × Nat)}
    (hinterns : Interns charValue pool table) {names : List CString}
    {answers : List (CString × Option Nat)} {final : TokenPool}
    (hrun : pool.atomizeAll charValue names = some (answers, final))
    (hanswers : ∀ answer ∈ answers, answer.2 ≠ none) :
    pool.bufferPtr + bytesOf (names.toFinset \ (table.map Prod.fst).toFinset) <
      constTokenpoolSize := by
  induction names generalizing pool table answers with
  | nil => simpa [bytesOf] using hinterns.room
  | cons name names ih =>
      simp only [atomizeAll, Option.bind_eq_bind, Option.bind_eq_some_iff, Option.some.injEq,
        Prod.mk.injEq] at hrun
      obtain ⟨⟨item, next⟩, hatomize, ⟨others, last⟩, hrest, rfl, rfl⟩ := hrun
      obtain ⟨hitem, hothers⟩ := List.forall_mem_cons.mp hanswers
      have hroom : pool.bufferPtr + bytesOf ({name} \ (table.map Prod.fst).toFinset) <
          constTokenpoolSize := by
        by_cases hknown : name ∈ table.map Prod.fst
        · have hempty : ({name} : Finset CString) \ (table.map Prod.fst).toFinset = ∅ := by
            simpa using hknown
          rw [hempty]
          simpa [bytesOf] using hinterns.room
        · have hnew : ({name} : Finset CString) \ (table.map Prod.fst).toFinset = {name} := by
            rw [Finset.sdiff_eq_self_iff_disjoint, Finset.disjoint_singleton_left,
              List.mem_toFinset]
            exact hknown
          rw [hnew, bytesOf, Finset.sum_singleton]
          by_contra hfull
          exact hitem (hinterns.atomize_full hknown hfull hatomize)
      obtain ⟨item', next', middle, hatomize', hnext, -, -, hnames⟩ := hinterns.atomize_spec hroom
      obtain ⟨-, rfl⟩ := Prod.mk.inj (Option.some.inj (hatomize.symm.trans hatomize'))
      have hfilled := hinterns.filled_insert charValue hnext hnames
      have hlater := ih hnext hrest hothers
      rw [hnames] at hlater
      rw [bytesOf_sdiff_cons]
      omega

/-- Interning is injective and stable along exactly the sequences of calls whose
different names, each with its null character, take less than the buffer. -/
theorem interningLaw_iff (tokenBuffer : Mem) (names : List CString) :
    InterningLaw charValue (create tokenBuffer) names ↔
      bytesOf names.toFinset < constTokenpoolSize := by
  have hstart := create_interns charValue tokenBuffer
  constructor
  · rintro ⟨answers, final, hrun, hanswers, -⟩
    have hroom := room_of_atomizeAll charValue hstart hrun fun answer hanswer => by
      obtain ⟨item, hitem, -⟩ := hanswers answer hanswer
      simp [hitem]
    simpa [create] using hroom
  · intro hroom
    obtain ⟨answers, final, table, hrun, hfinal, -, hanswers⟩ :=
      atomizeAll_of_room charValue hstart names (by simpa [create] using hroom)
    refine ⟨answers, final, hrun, fun answer hanswer => ?_, fun first hfirst second hsecond => ?_⟩
    · obtain ⟨item, hitem, hmem⟩ := hanswers answer hanswer
      exact ⟨item, hitem, (hfinal.spelled _ hmem).1⟩
    · obtain ⟨item, hitem, hmem⟩ := hanswers first hfirst
      obtain ⟨item', hitem', hmem'⟩ := hanswers second hsecond
      rw [hitem, hitem', Option.some.injEq]
      constructor
      · intro hcopy
        exact hfinal.eq_of_copy hmem hmem' hcopy
      · intro hname
        exact congrArg Prod.snd (hfinal.eq_of_name hmem hmem' hname)

/-- One character over and over. -/
def repeated (length : Nat) : CString :=
  ⟨List.replicate length 97, fun hzero => absurd (List.eq_of_mem_replicate hzero) (by decide)⟩

theorem repeated_strlen (length : Nat) : (repeated length).strlen = length :=
  List.length_replicate

/-- A single name that does not fit the empty buffer is answered with a null
pointer. -/
theorem not_interningLaw_of_long (tokenBuffer : Mem) {name : CString}
    (hlong : constTokenpoolSize ≤ name.strlen + 1) :
    ¬ InterningLaw charValue (create tokenBuffer) [name] := by
  rintro ⟨answers, final, hrun, hanswers, -⟩
  have hroom := room_of_atomizeAll charValue (create_interns _ _) hrun
    fun answer hanswer => by
      obtain ⟨item, hitem, -⟩ := hanswers answer hanswer
      simp [hitem]
  simp only [create, bytesOf, List.toFinset_cons, List.toFinset_nil, List.map_nil,
    Finset.sdiff_empty, insert_empty_eq, Finset.sum_singleton, Nat.zero_add] at hroom
  exact absurd hroom (Nat.not_lt.mpr hlong)

/-- A name of 65535 characters is too long. -/
theorem interningLaw_fails_at_long_name :
    ¬ InterningLaw UInt8.toUInt32 (create fun _ => 0) [repeated 65535] := by
  refine not_interningLaw_of_long _ _ ?_
  rw [repeated_strlen]
  exact Nat.le_refl _

end TokenPool

end McuProxy.Meta
