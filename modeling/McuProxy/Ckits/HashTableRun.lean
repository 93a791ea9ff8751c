/-
# The hash table is a map

The chains of a table hold every name once, in the bucket that its hash selects.
A table with this property stands for a partial map from names to values, and
every call does to the map, and answers of it, what its name says. The hash is
never looked into: it only decides which chain is searched.
-/

import McuProxy.Ckits.HashTable
import McuProxy.Math.LimitedMap
import McuProxy.Math.Machine
import Mathlib.Data.Nat.Bitwise

namespace McuProxy.Ckits

open McuProxy.Math McuProxy.Memory

/-! ## The size of a table -/

/-- The loop stops at a power of two, unless the size has none of the bits from
the one it starts with down. -/
theorem testbitLoop_eq (hashSize bit : Nat) :
    (∃ high, testbitLoop hashSize (bit + 1) (2 ^ bit) = 2 ^ high) ∨
      ∀ low, low ≤ bit → hashSize.testBit low = false := by
  have hclear : ∀ low, hashSize &&& 2 ^ low = 0 → hashSize.testBit low = false := by
    intro low hzero
    have hbit := congrArg (Nat.testBit · low) hzero
    simpa [Nat.testBit_and, Nat.testBit_two_pow_self] using hbit
  induction bit with
  | zero =>
      by_cases hbit : hashSize &&& 2 ^ 0 = 0
      · refine .inr fun low hlow => ?_
        obtain rfl := Nat.le_zero.mp hlow
        exact hclear 0 hbit
      · exact .inl ⟨0, by rw [testbitLoop, if_pos hbit]⟩
  | succ bit ih =>
      by_cases hbit : hashSize &&& 2 ^ (bit + 1) = 0
      · have hshift : 2 ^ (bit + 1) >>> 1 = 2 ^ bit := by
          rw [Nat.shiftRight_eq_div_pow, Nat.pow_succ, Nat.pow_one,
            Nat.mul_div_cancel _ (by decide)]
        rw [testbitLoop, if_neg (not_not.mpr hbit), hshift,
          if_pos (Nat.two_pow_pos bit).ne']
        rcases ih with hfound | hnone
        · exact .inl hfound
        · refine .inr fun low hlow => ?_
          rcases Nat.lt_or_eq_of_le hlow with hlow | rfl
          · exact hnone low (Nat.le_of_lt_succ hlow)
          · exact hclear _ hbit
      · exact .inl ⟨bit + 1, by rw [testbitLoop, if_pos hbit]⟩

/-- The size of a table is a power of two, whatever size above zero was asked
for. -/
theorem realHashSize_eq_two_pow {hashSize : Nat} (hsize : 1 ≤ hashSize) :
    ∃ high, realHashSize hashSize = 2 ^ high := by
  by_cases hlarge : hashSize > constMaxHashsize
  · exact ⟨12, by rw [realHashSize, if_pos hlarge]; rfl⟩
  · rw [realHashSize, if_neg hlarge]
    rcases testbitLoop_eq hashSize 12 with hfound | hnone
    · exact hfound
    · have hzero : hashSize = 0 := by
        refine Nat.zero_of_testBit_eq_false fun bit => ?_
        by_cases hbit : bit ≤ 12
        · exact hnone bit hbit
        · refine Nat.testBit_lt_two_pow (lt_of_le_of_lt (not_lt.mp hlarge) ?_)
          exact Nat.pow_lt_pow_right Nat.one_lt_two (not_le.mp hbit)
      omega

namespace TableInfo

variable {Value : Type} (charValue : UInt8 → UInt32)

@[simp]
theorem setToken_hashSize (tbl : TableInfo Value) (place : Nat) (token : Option (HashToken Value)) :
    (tbl.setToken place token).hashSize = tbl.hashSize := rfl

theorem hashValue_lt {hashSize : Nat} (hsize : 0 < hashSize) (name : CString) :
    hashValue charValue hashSize name < hashSize :=
  lt_of_le_of_lt Nat.and_le_right (Nat.sub_lt hsize Nat.one_pos)

/-! ## What a table stands for -/

/-- A chain of a bucket: it is linked from there, holds only names that hash to
the bucket, and holds no name twice. -/
structure BucketChain (tbl : TableInfo Value) (index : Nat) (cells : List (Nat × Binding Value)) :
    Prop where
  linked : Segment tbl.tokens (tbl.table index) cells none
  placed : ∀ cell ∈ cells, hashValue charValue tbl.hashSize cell.2.name = index
  distinct : (cells.map fun cell => cell.2.name).Nodup
  bounded : ∀ cell ∈ cells, 0 < cell.1 ∧ cell.1 < loopFuel

/-- Every bucket has its chain. -/
structure Represents (tbl : TableInfo Value) (chains : Nat → List (Nat × Binding Value)) :
    Prop where
  size_pos : 0 < tbl.hashSize
  chain : ∀ index, index < tbl.hashSize → BucketChain charValue tbl index (chains index)

/-- The names and values of a chain. -/
def entries (chain : List (Nat × Binding Value)) : List (CString × Option Value) :=
  chain.map fun cell => (cell.2.name, cell.2.value)

/-- A partial map from names to values. -/
abbrev NameMap (Value : Type) : Type := CString → Option (Option Value)

/-- The table stands for the map: it has chains, and the map is what a search of
the chain of a name finds. -/
def Models (tbl : TableInfo Value) (map : NameMap Value) : Prop :=
  ∃ chains, Represents charValue tbl chains ∧
    ∀ name, map name =
      LimitedMap.lookupIn (entries (chains (hashValue charValue tbl.hashSize name))) name

namespace BucketChain

variable {charValue} {tbl : TableInfo Value} {index : Nat} {cells : List (Nat × Binding Value)}

/-- One address has one name, so addresses are as distinct as names are. -/
theorem addresses_nodup (hchain : BucketChain charValue tbl index cells) :
    (cells.map Prod.fst).Nodup := by
  let nameAt (address : Nat) : Option CString := (tbl.tokens address).map (·.content.name)
  have hnames : cells.map (fun cell => some cell.2.name) =
      (cells.map Prod.fst).map nameAt := by
    rw [List.map_map]
    refine List.map_congr_left fun cell hcell => ?_
    obtain ⟨next, hnext⟩ := hchain.linked.exists_cell hcell
    simp [nameAt, hnext]
  refine List.Nodup.of_map nameAt ?_
  rw [← hnames]
  have hsome := hchain.distinct.map (Option.some_injective CString)
  rwa [List.map_map] at hsome

theorem length_lt (hchain : BucketChain charValue tbl index cells) : cells.length < loopFuel :=
  length_lt_of_addresses hchain.addresses_nodup hchain.bounded (by decide)

end BucketChain

namespace Represents

variable {charValue} {tbl : TableInfo Value} {chains : Nat → List (Nat × Binding Value)}

theorem index_lt (hrep : Represents charValue tbl chains) (name : CString) :
    hashValue charValue tbl.hashSize name < tbl.hashSize :=
  hashValue_lt charValue hrep.size_pos name

theorem bucket_eq (hrep : Represents charValue tbl chains) (name : CString) :
    tbl.bucket (hashValue charValue tbl.hashSize name) =
      some (tbl.table (hashValue charValue tbl.hashSize name)) :=
  if_pos (hrep.index_lt name)

theorem hashChain (hrep : Represents charValue tbl chains) (name : CString) :
    BucketChain charValue tbl (hashValue charValue tbl.hashSize name)
      (chains (hashValue charValue tbl.hashSize name)) :=
  hrep.chain _ (hrep.index_lt name)

/-- A token of one chain is in no other. -/
theorem address_not_mem (hrep : Represents charValue tbl chains) {index other : Nat}
    (hindex : index < tbl.hashSize) (hother : other < tbl.hashSize) (hne : other ≠ index)
    {cell : Nat × Binding Value} (hcell : cell ∈ chains other) :
    cell.1 ∉ (chains index).map Prod.fst := by
  intro hmem
  obtain ⟨same, hsame, haddress⟩ := List.mem_map.mp hmem
  obtain ⟨next, hnext⟩ := (hrep.chain other hother).linked.exists_cell hcell
  obtain ⟨next', hnext'⟩ := (hrep.chain index hindex).linked.exists_cell hsame
  rw [haddress, hnext] at hnext'
  have hcontent := (Cell.mk.inj (Option.some.inj hnext')).2
  exact hne (by rw [← (hrep.chain other hother).placed cell hcell, hcontent,
    (hrep.chain index hindex).placed same hsame])

/-- One chain may be replaced by another of the same bucket, when the links and
tokens of the other chains are kept. -/
theorem replace (hrep : Represents charValue tbl chains) {tbl' : TableInfo Value} {index : Nat}
    (hindex : index < tbl.hashSize) {cells : List (Nat × Binding Value)}
    (hsize : tbl'.hashSize = tbl.hashSize)
    (htable : ∀ other, other ≠ index → tbl'.table other = tbl.table other)
    (htokens : ∀ address token, tbl.tokens address = some token →
      address ∉ (chains index).map Prod.fst → tbl'.tokens address = tbl.tokens address)
    (hcells : BucketChain charValue tbl' index cells) :
    Represents charValue tbl' (Function.update chains index cells) := by
  refine ⟨hsize ▸ hrep.size_pos, fun other hother => ?_⟩
  rw [hsize] at hother
  by_cases hne : other = index
  · subst hne
    rwa [Function.update_self]
  · rw [Function.update_of_ne hne]
    obtain ⟨hlinked, hplaced, hdistinct, hbounded⟩ := hrep.chain other hother
    refine ⟨?_, hsize ▸ hplaced, hdistinct, hbounded⟩
    rw [htable other hne]
    refine hlinked.frame fun cell hcell => ?_
    obtain ⟨next, hnext⟩ := hlinked.exists_cell hcell
    exact htokens cell.1 _ hnext (hrep.address_not_mem hindex hother hne hcell)

end Represents

/-! ## Looking a name up -/

/-- What `findToken` leaves when it takes the token at `place` out of its chain:
the chain without it, and everything else as it was. -/
structure Unlinked (tbl tbl' : TableInfo Value) (index : Nat)
    (front back : List (Nat × Binding Value)) : Prop where
  size : tbl'.hashSize = tbl.hashSize
  table : ∀ other, other ≠ index → tbl'.table other = tbl.table other
  tokens : ∀ address, address ∉ front.map Prod.fst → tbl'.tokens address = tbl.tokens address
  linked : Segment tbl'.tokens (tbl'.table index) (front ++ back) none

section Find

variable {charValue : UInt8 → UInt32} {tbl : TableInfo Value}
  {chains : Nat → List (Nat × Binding Value)} {name : CString} {first : Nat}
  {binding : Binding Value} {next : Option Nat}

/-- The name is that of the head of the chain, which is unlinked in the table. -/
theorem findToken_head (hrep : Represents charValue tbl chains)
    (hhead : tbl.table (hashValue charValue tbl.hashSize name) = some first)
    (htoken : tbl.tokens first = some ⟨next, binding⟩) (hname : name = binding.name)
    {rest : List (Nat × Binding Value)} (hrest : Segment tbl.tokens next rest none) :
    tbl.findToken charValue name false = some (some first, tbl) ∧
      ∃ tbl', tbl.findToken charValue name true = some (some first, tbl') ∧
        Unlinked tbl tbl' (hashValue charValue tbl.hashSize name) [] rest := by
  have hbucket := hrep.bucket_eq name
  constructor
  · simp only [findToken, hbucket, hhead, htoken, Option.bind_eq_bind, Option.bind_some,
      if_pos hname, Bool.false_eq_true, if_false]
  · refine ⟨{ tbl with table :=
        Function.update tbl.table (hashValue charValue tbl.hashSize name) next }, ?_, rfl,
      fun other hother => Function.update_of_ne hother _ _, fun _ _ => rfl, ?_⟩
    · simp only [findToken, hbucket, hhead, htoken, Option.bind_eq_bind, Option.bind_some,
        if_pos hname, if_true, setBucket, if_pos (hrep.index_lt name)]
    · simpa using hrest

/-- The name is that of a later token, and its predecessor is linked past it. -/
theorem findToken_behind (hrep : Represents charValue tbl chains)
    (hhead : tbl.table (hashValue charValue tbl.hashSize name) = some first)
    (htoken : tbl.tokens first = some ⟨next, binding⟩) (hname : name ≠ binding.name)
    {front back : List (Nat × Binding Value)} {prev place : Nat} {before found : Binding Value}
    {link : Option Nat}
    (hseek : seek tbl.tokens (fun binding => decide (name = binding.name)) loopFuel first next =
      some (prev, some place))
    (hsegment : Segment tbl.tokens (tbl.table (hashValue charValue tbl.hashSize name))
      (front ++ (prev, before) :: (place, found) :: back) none)
    (hnodup : ((front ++ (prev, before) :: (place, found) :: back).map Prod.fst).Nodup)
    (hplace : tbl.tokens place = some ⟨link, found⟩) :
    tbl.findToken charValue name false = some (some place, tbl) ∧
      ∃ tbl', tbl.findToken charValue name true = some (some place, tbl') ∧
        Unlinked tbl tbl' (hashValue charValue tbl.hashSize name) (front ++ [(prev, before)])
          back := by
  have hbucket := hrep.bucket_eq name
  obtain ⟨link', hprev⟩ := hsegment.exists_cell (List.mem_append_right front
    List.mem_cons_self)
  simp only [List.map_append, List.map_cons, List.nodup_append, List.nodup_cons,
    List.mem_cons, not_or] at hnodup
  refine ⟨by simp [findToken, hbucket, hhead, htoken, hname, hseek],
    tbl.setToken prev (some ⟨link, before⟩), ?_, rfl, fun _ _ => rfl, ?_, ?_⟩
  · simp [findToken, hbucket, hhead, htoken, hname, hseek, hplace, hprev]
  · intro address haddress
    refine Function.update_of_ne ?_ _ _
    rintro rfl
    exact haddress (by simp)
  · rw [List.append_assoc, List.singleton_append]
    refine hsegment.unlink hplace ?_ ?_
    · intro hmem
      exact hnodup.2.2 prev hmem prev (.inl rfl) rfl
    · exact hnodup.2.1.1.2

end Find

/-- `findToken` finds the one token of the chain that has the name, and can take
it out, or finds nothing when no token has it. -/
theorem findToken_cases {charValue : UInt8 → UInt32} {tbl : TableInfo Value}
    {chains : Nat → List (Nat × Binding Value)} (hrep : Represents charValue tbl chains)
    (name : CString) :
    (∃ front place binding back next,
      chains (hashValue charValue tbl.hashSize name) = front ++ (place, binding) :: back ∧
      binding.name = name ∧ tbl.tokens place = some ⟨next, binding⟩ ∧
      tbl.findToken charValue name false = some (some place, tbl) ∧
      ∃ tbl', tbl.findToken charValue name true = some (some place, tbl') ∧
        Unlinked tbl tbl' (hashValue charValue tbl.hashSize name) front back) ∨
    ((∀ cell ∈ chains (hashValue charValue tbl.hashSize name), cell.2.name ≠ name) ∧
      ∀ delFlag, tbl.findToken charValue name delFlag = some (none, tbl)) := by
  have hchain := hrep.hashChain name
  have hbucket := hrep.bucket_eq name
  have hsegment := hchain.linked
  have hnodup := hchain.addresses_nodup
  have hlength := hchain.length_lt
  cases hcells : chains (hashValue charValue tbl.hashSize name) with
  | nil =>
      rw [hcells, Segment.nil_iff] at hsegment
      refine .inr ⟨by simp, fun delFlag => ?_⟩
      simp [findToken, hbucket, hsegment]
  | cons cell rest =>
      obtain ⟨first, binding⟩ := cell
      rw [hcells] at hsegment hnodup hlength
      obtain ⟨hhead, next, htoken, hrest⟩ := id hsegment
      by_cases hname : name = binding.name
      · exact .inl ⟨[], first, binding, rest, next, rfl, hname.symm, htoken,
          findToken_head hrep hhead htoken hname hrest⟩
      · rcases seek_spec (fun binding => decide (name = binding.name)) [] hsegment htoken
          (by simpa using hname) (Nat.lt_of_succ_lt hlength) with
          ⟨front, prev, before, place, found, back, hsplit, -, htest, hseek⟩ | ⟨hnone, last, hseek⟩
        · have hfound : name = found.name := by simpa using htest
          rw [List.nil_append] at hsplit
          rw [hsplit] at hsegment hnodup
          obtain ⟨link, hplace⟩ := hsegment.exists_cell (List.mem_append_right front
            (List.mem_cons_of_mem _ List.mem_cons_self))
          refine .inl ⟨front ++ [(prev, before)], place, found, back, link, by simp [hsplit],
            hfound.symm, hplace, ?_⟩
          exact findToken_behind hrep hhead htoken hname hseek hsegment hnodup hplace
        · refine .inr ⟨?_, fun delFlag => ?_⟩
          · refine List.forall_mem_cons.mpr ⟨fun heq => hname heq.symm, fun cell hcell heq => ?_⟩
            simpa [heq] using hnone cell hcell
          · simp [findToken, hbucket, hhead, htoken, hname, hseek]

/-! ## Calls, and what they do to the map -/

/-- What a call answers, and what it showed to a callback. -/
structure Response (Value : Type) extends Answer Value where
  visits : List (Binding Value)

/-- The calls on a table. -/
inductive TableCall (Value : Type)
  | set (name : Option CString) (value : Option Value) (retval : Option (Option Value))
      (memory : Allocation)
  | get (name : Option CString) (retval : Option (Option Value))
  | del (name : Option CString) (retval : Option (Option Value))
  | iter (callback : Option (IterFunc Value))

/-- What a call answers and leaves. -/
def serve (tbl : TableInfo Value) : TableCall Value → Option (Response Value × TableInfo Value)
  | .set name value retval memory =>
      (tbl.setHashValue charValue name value retval memory).map fun result =>
        (⟨result.1, []⟩, result.2)
  | .get name retval =>
      (tbl.getHashValue charValue name retval).map fun answer => (⟨answer, []⟩, tbl)
  | .del name retval =>
      (tbl.delHashValue charValue name retval).map fun result => (⟨result.1, []⟩, result.2)
  | .iter callback =>
      (tbl.iterHashTable callback).map fun result => (⟨⟨result.1, none⟩, result.2⟩, tbl)

/-- Whether a new token gets all the memory it needs. -/
def Allocation.granted (memory : Allocation) : Bool := memory.token.isSome && memory.name

/-- The map after a call. -/
def mapStep (map : NameMap Value) : TableCall Value → NameMap Value
  | .set (some name) value _ memory =>
      if (map name).isSome ∨ memory.granted then Function.update map name (some value) else map
  | .del (some name) _ => Function.update map name none
  | _ => map

/-- What a map answers to a call. -/
def mapAnswer (map : NameMap Value) : TableCall Value → Answer Value
  | .set none _ retval _ => ⟨-1, retval.map fun _ => none⟩
  | .set (some name) _ retval memory =>
      match map name with
      | some old => ⟨0, retval.map fun _ => old⟩
      | none => ⟨if memory.granted then 0 else -1, retval.map fun _ => none⟩
  | .get (some name) (some old) =>
      match map name with
      | some value => ⟨0, some value⟩
      | none => ⟨-1, some old⟩
  | .get _ retval => ⟨-1, retval⟩
  | .del none retval => ⟨-1, retval⟩
  | .del (some name) retval =>
      match map name with
      | some old => ⟨0, retval.map fun _ => old⟩
      | none => ⟨-1, retval⟩
  | .iter none => ⟨-1, none⟩
  | .iter (some _) => ⟨0, none⟩

/-- No iteration of the call is cut short by its callback. -/
def NeverBreaks (call : TableCall Value) : Prop :=
  ∀ callback, call = .iter (some callback) → ∀ log shown, callback log shown = .continue

/-- The call has done its work: it answered what the map answers, showed every
binding of the map once, changed nothing if it failed, and left a table of the
same size that stands for the map after the call. -/
structure Served (tbl : TableInfo Value) (map : NameMap Value) (call : TableCall Value)
    (response : Response Value) (next : TableInfo Value) : Prop where
  answer : NeverBreaks call → response.toAnswer = mapAnswer map call
  visits : NeverBreaks call → ∀ callback, call = .iter (some callback) →
    (response.visits.map Binding.name).Nodup ∧
      ∀ binding, binding ∈ response.visits ↔ map binding.name = some binding.value
  failed : response.ret ≠ 0 → next = tbl
  models : Models charValue next (mapStep map call)
  size : next.hashSize = tbl.hashSize

/-- The memory that an insertion is given is not in use, and is memory. -/
def FreshMemory (tbl : TableInfo Value) (call : TableCall Value) : Prop :=
  ∀ name value retval memory address, call = .set name value retval memory →
    memory.token = some address → tbl.tokens address = none ∧ 0 < address ∧ address < loopFuel

/-! ## One call -/

section Calls

variable {charValue} {tbl : TableInfo Value} {map : NameMap Value}
  {chains : Nat → List (Nat × Binding Value)}

theorem entries_middle (front back : List (Nat × Binding Value)) (place : Nat)
    (binding : Binding Value) :
    entries (front ++ (place, binding) :: back) =
      entries front ++ (binding.name, binding.value) :: entries back := by
  simp [entries]

/-- The names around one of the names of a chain are others. -/
theorem BucketChain.other_names {index : Nat} {front back : List (Nat × Binding Value)}
    {place : Nat} {binding : Binding Value}
    (hchain : BucketChain charValue tbl index (front ++ (place, binding) :: back)) :
    (∀ entry ∈ entries front, entry.1 ≠ binding.name) ∧
      ∀ entry ∈ entries back, entry.1 ≠ binding.name := by
  have hdistinct := hchain.distinct
  simp only [List.map_append, List.map_cons, List.nodup_append, List.nodup_cons,
    List.mem_cons] at hdistinct
  obtain ⟨-, ⟨hback, -⟩, hfront⟩ := hdistinct
  constructor
  · rintro entry hentry heq
    obtain ⟨cell, hcell, rfl⟩ := List.mem_map.mp hentry
    exact hfront cell.2.name (List.mem_map_of_mem hcell) binding.name (.inl rfl) heq
  · rintro entry hentry heq
    obtain ⟨cell, hcell, rfl⟩ := List.mem_map.mp hentry
    exact hback (List.mem_map.mpr ⟨cell, hcell, heq⟩)

/-- The map after one chain was replaced: names of other buckets keep their
values. -/
theorem Models.replace {tbl' : TableInfo Value} {map' : NameMap Value} {index : Nat}
    {cells : List (Nat × Binding Value)}
    (hmap : ∀ name, map name =
      LimitedMap.lookupIn (entries (chains (hashValue charValue tbl.hashSize name))) name)
    (hrep : Represents charValue tbl' (Function.update chains index cells))
    (hsize : tbl'.hashSize = tbl.hashSize)
    (hother : ∀ name, hashValue charValue tbl.hashSize name ≠ index → map' name = map name)
    (hcells : ∀ name, hashValue charValue tbl.hashSize name = index →
      map' name = LimitedMap.lookupIn (entries cells) name) : Models charValue tbl' map' := by
  refine ⟨_, hrep, fun name => ?_⟩
  rw [hsize]
  by_cases hindex : hashValue charValue tbl.hashSize name = index
  · rw [hcells name hindex, hindex, Function.update_self]
  · rw [Function.update_of_ne hindex, hother name hindex, hmap]

/-- What the map says of the names of a bucket, when one token of its chain is
singled out. -/
theorem lookup_middle {front back : List (Nat × Binding Value)} {place : Nat}
    {binding : Binding Value} {index : Nat}
    (hchain : BucketChain charValue tbl index (front ++ (place, binding) :: back))
    (other : CString) :
    LimitedMap.lookupIn (entries (front ++ (place, binding) :: back)) other =
      if other = binding.name then some binding.value
      else LimitedMap.lookupIn (entries (front ++ back)) other := by
  rw [entries_middle, LimitedMap.lookupIn_middle _ hchain.other_names.1]
  simp [entries]

/-- Writing the value of a token that has the name. -/
theorem Models.write (hrep : Represents charValue tbl chains)
    (hmap : ∀ name, map name =
      LimitedMap.lookupIn (entries (chains (hashValue charValue tbl.hashSize name))) name)
    {front back : List (Nat × Binding Value)} {place : Nat} {binding : Binding Value}
    {next : Option Nat}
    (hsplit : chains (hashValue charValue tbl.hashSize binding.name) =
      front ++ (place, binding) :: back)
    (htoken : tbl.tokens place = some ⟨next, binding⟩) (value : Option Value) :
    Models charValue (tbl.setToken place (some ⟨next, { binding with value := value }⟩))
      (Function.update map binding.name (some value)) := by
  have hchain := hrep.hashChain binding.name
  rw [hsplit] at hchain
  have hnodup := hchain.addresses_nodup
  simp only [List.map_append, List.map_cons, List.nodup_append, List.nodup_cons,
    List.mem_cons] at hnodup
  obtain ⟨-, ⟨hback, -⟩, hfront⟩ := hnodup
  have hwritten : BucketChain charValue
      (tbl.setToken place (some ⟨next, { binding with value := value }⟩))
      (hashValue charValue tbl.hashSize binding.name)
      (front ++ (place, { binding with value := value }) :: back) := by
    refine ⟨hchain.linked.write htoken (fun hmem => hfront place hmem place (.inl rfl) rfl) hback,
      fun cell hcell => ?_, ?_, fun cell hcell => ?_⟩
    · rcases List.mem_append.mp hcell with hcell | hcell
      · exact hchain.placed cell (List.mem_append_left _ hcell)
      · rcases List.mem_cons.mp hcell with rfl | hcell
        · rfl
        · exact hchain.placed cell (List.mem_append_right _ (List.mem_cons_of_mem _ hcell))
    · simpa using hchain.distinct
    · rcases List.mem_append.mp hcell with hcell | hcell
      · exact hchain.bounded cell (List.mem_append_left _ hcell)
      · rcases List.mem_cons.mp hcell with rfl | hcell
        · exact hchain.bounded (place, binding) (List.mem_append_right _ List.mem_cons_self)
        · exact hchain.bounded cell (List.mem_append_right _ (List.mem_cons_of_mem _ hcell))
  refine Models.replace hmap
    (hrep.replace (hrep.index_lt binding.name) rfl (fun _ _ => rfl) ?_ hwritten) rfl ?_ ?_
  · intro address token _ haddress
    refine Function.update_of_ne ?_ _ _
    rintro rfl
    exact haddress (by simp [hsplit])
  · intro other hother
    exact Function.update_of_ne (fun heq => hother (by rw [heq])) _ _
  · intro other hother
    rw [lookup_middle hwritten, Function.update_apply, hmap other, hother, hsplit,
      lookup_middle hchain]
    split_ifs <;> rfl

/-- Taking out a token that has the name. -/
theorem Models.erase (hrep : Represents charValue tbl chains)
    (hmap : ∀ name, map name =
      LimitedMap.lookupIn (entries (chains (hashValue charValue tbl.hashSize name))) name)
    {front back : List (Nat × Binding Value)} {place : Nat} {binding : Binding Value}
    (hsplit : chains (hashValue charValue tbl.hashSize binding.name) =
      front ++ (place, binding) :: back) {tbl' : TableInfo Value}
    (hunlinked : Unlinked tbl tbl' (hashValue charValue tbl.hashSize binding.name) front back) :
    Models charValue (tbl'.setToken place none) (Function.update map binding.name none) := by
  have hchain := hrep.hashChain binding.name
  rw [hsplit] at hchain
  have hnodup := hchain.addresses_nodup
  simp only [List.map_append, List.map_cons, List.nodup_append, List.nodup_cons,
    List.mem_cons] at hnodup
  obtain ⟨-, ⟨hback, -⟩, hfront⟩ := hnodup
  obtain ⟨hsize, htable, htokens, hlinked⟩ := hunlinked
  have hsub : (front ++ back).Sublist (front ++ (place, binding) :: back) :=
    (List.Sublist.refl front).append (List.sublist_cons_self _ back)
  have hgone : place ∉ (front ++ back).map Prod.fst := by
    rw [List.map_append, List.mem_append]
    rintro (hmem | hmem)
    · exact hfront place hmem place (.inl rfl) rfl
    · exact hback hmem
  have herased : BucketChain charValue (tbl'.setToken place none)
      (hashValue charValue tbl.hashSize binding.name) (front ++ back) := by
    refine ⟨hlinked.frame_update hgone _, fun cell hcell => ?_, ?_, fun cell hcell => ?_⟩
    · exact hsize ▸ hchain.placed cell (hsub.subset hcell)
    · exact hchain.distinct.sublist (hsub.map _)
    · exact hchain.bounded cell (hsub.subset hcell)
  refine Models.replace hmap
    (hrep.replace (hrep.index_lt binding.name) hsize htable ?_ herased) hsize ?_ ?_
  · intro address token _ haddress
    rw [hsplit, List.map_append, List.map_cons, List.mem_append, List.mem_cons, not_or, not_or]
      at haddress
    exact (Function.update_of_ne haddress.2.1 _ _).trans (htokens address haddress.1)
  · intro other hother
    exact Function.update_of_ne (fun heq => hother (by rw [heq])) _ _
  · intro other hother
    rw [Function.update_apply, hmap other, hother, hsplit, lookup_middle hchain]
    split_ifs with hname
    · rw [hname, LimitedMap.lookupIn_eq_none]
      intro entry hentry
      rw [entries, List.map_append, List.mem_append] at hentry
      exact hentry.elim (hchain.other_names.1 entry) (hchain.other_names.2 entry)
    · rfl

/-- A chain with a new token behind it. -/
theorem BucketChain.append {tbl' : TableInfo Value} {index : Nat}
    {cells : List (Nat × Binding Value)} (hchain : BucketChain charValue tbl index cells)
    {address : Nat} {binding : Binding Value} (hsize : tbl'.hashSize = tbl.hashSize)
    (hlinked : Segment tbl'.tokens (tbl'.table index) (cells ++ [(address, binding)]) none)
    (hplaced : hashValue charValue tbl.hashSize binding.name = index)
    (hnew : ∀ cell ∈ cells, cell.2.name ≠ binding.name)
    (haddress : 0 < address ∧ address < loopFuel) :
    BucketChain charValue tbl' index (cells ++ [(address, binding)]) := by
  refine ⟨hlinked, fun cell hcell => ?_, ?_, fun cell hcell => ?_⟩
  · rw [hsize]
    rcases List.mem_append.mp hcell with hcell | hcell
    · exact hchain.placed cell hcell
    · obtain rfl := List.mem_singleton.mp hcell
      exact hplaced
  · rw [List.map_append, List.nodup_append]
    refine ⟨hchain.distinct, List.nodup_singleton _, ?_⟩
    intro name hname other hother
    obtain ⟨cell, hcell, rfl⟩ := List.mem_map.mp hname
    obtain rfl := List.mem_singleton.mp hother
    exact hnew cell hcell
  · rcases List.mem_append.mp hcell with hcell | hcell
    · exact hchain.bounded cell hcell
    · obtain rfl := List.mem_singleton.mp hcell
      exact haddress

/-- Appending a token with a new name. -/
theorem Models.append (hrep : Represents charValue tbl chains)
    (hmap : ∀ name, map name =
      LimitedMap.lookupIn (entries (chains (hashValue charValue tbl.hashSize name))) name)
    {tbl' : TableInfo Value} {address : Nat} (binding : Binding Value)
    (hnew : ∀ cell ∈ chains (hashValue charValue tbl.hashSize binding.name),
      cell.2.name ≠ binding.name)
    (haddress : 0 < address ∧ address < loopFuel)
    (hsize : tbl'.hashSize = tbl.hashSize)
    (htable : ∀ other, other ≠ hashValue charValue tbl.hashSize binding.name →
      tbl'.table other = tbl.table other)
    (htokens : ∀ place token, tbl.tokens place = some token →
      place ∉ (chains (hashValue charValue tbl.hashSize binding.name)).map Prod.fst →
      tbl'.tokens place = tbl.tokens place)
    (hlinked : Segment tbl'.tokens (tbl'.table (hashValue charValue tbl.hashSize binding.name))
      (chains (hashValue charValue tbl.hashSize binding.name) ++ [(address, binding)]) none) :
    Models charValue tbl' (Function.update map binding.name (some binding.value)) := by
  have happended := (hrep.hashChain binding.name).append hsize hlinked rfl hnew haddress
  refine Models.replace hmap
    (hrep.replace (hrep.index_lt binding.name) hsize htable htokens happended) hsize ?_ ?_
  · intro other hother
    exact Function.update_of_ne (fun heq => hother (by rw [heq])) _ _
  · intro other hother
    rw [lookup_middle happended, Function.update_apply, hmap other, hother, List.append_nil]

/-- The address of a new token is not in a chain. -/
theorem unused_of_fresh (hrep : Represents charValue tbl chains) {address : Nat}
    (hfresh : tbl.tokens address = none) (name : CString) :
    address ∉ (chains (hashValue charValue tbl.hashSize name)).map Prod.fst := by
  intro hmem
  obtain ⟨cell, hcell, rfl⟩ := List.mem_map.mp hmem
  obtain ⟨next, hnext⟩ := (hrep.hashChain name).linked.exists_cell hcell
  simp [hfresh] at hnext

/-- An empty bucket takes a new token itself. -/
theorem setHashValue_empty (hrep : Represents charValue tbl chains)
    (hmap : ∀ name, map name =
      LimitedMap.lookupIn (entries (chains (hashValue charValue tbl.hashSize name))) name)
    {name : CString} (hcells : chains (hashValue charValue tbl.hashSize name) = [])
    (hfind : tbl.findToken charValue name false = some (none, tbl)) {address : Nat}
    (hfresh : tbl.tokens address = none) (haddress : 0 < address ∧ address < loopFuel)
    (value : Option Value) (retval : Option (Option Value)) :
    ∃ next, tbl.setHashValue charValue (some name) value retval ⟨some address, true⟩ =
        some (⟨0, retval.map fun _ => none⟩, next) ∧
      next.hashSize = tbl.hashSize ∧
      Models charValue next (Function.update map name (some value)) := by
  have hindex := hrep.index_lt name
  have hlinked := (hrep.hashChain name).linked
  rw [hcells, Segment.nil_iff] at hlinked
  have hbucket : ∀ token, (tbl.setToken address token).bucket
      (hashValue charValue tbl.hashSize name) =
        some (tbl.table (hashValue charValue tbl.hashSize name)) :=
    fun _ => if_pos hindex
  have hset : ∀ token, (tbl.setToken address token).setBucket
      (hashValue charValue tbl.hashSize name) (some address) =
        some { tbl.setToken address token with
          table := (Function.update tbl.table (hashValue charValue tbl.hashSize name)
            (some address)) } :=
    fun _ => if_pos hindex
  refine ⟨{ tbl.setToken address (some ⟨none, name, value⟩) with
    table := Function.update tbl.table (hashValue charValue tbl.hashSize name) (some address) },
    ?_, rfl, ?_⟩
  · simp only [setHashValue, hfind, createToken, hlinked, hbucket, hset,
      Option.bind_eq_bind, Option.bind_some, if_true, setToken_hashSize]
  · refine Models.append hrep hmap ⟨name, value⟩ (by simp [hcells]) haddress rfl
      (fun other hother => Function.update_of_ne hother _ _) ?_ ?_
    · intro place token hplace _
      refine Function.update_of_ne ?_ _ _
      rintro rfl
      simp [hfresh] at hplace
    · rw [hcells]
      exact ⟨Function.update_self _ _ _, none, Function.update_self _ _ _, rfl⟩

/-- The last token of a chain is linked to a new one. -/
theorem setHashValue_behind (hrep : Represents charValue tbl chains)
    (hmap : ∀ name, map name =
      LimitedMap.lookupIn (entries (chains (hashValue charValue tbl.hashSize name))) name)
    {name : CString}
    (hnew : ∀ cell ∈ chains (hashValue charValue tbl.hashSize name), cell.2.name ≠ name)
    {front : List (Nat × Binding Value)} {last : Nat} {binding : Binding Value}
    (hcells : chains (hashValue charValue tbl.hashSize name) = front ++ [(last, binding)])
    (hfind : tbl.findToken charValue name false = some (none, tbl)) {address : Nat}
    (hfresh : tbl.tokens address = none) (haddress : 0 < address ∧ address < loopFuel)
    (value : Option Value) (retval : Option (Option Value)) :
    ∃ next, tbl.setHashValue charValue (some name) value retval ⟨some address, true⟩ =
        some (⟨0, retval.map fun _ => none⟩, next) ∧
      next.hashSize = tbl.hashSize ∧
      Models charValue next (Function.update map name (some value)) := by
  have hchain := hrep.hashChain name
  have hlinked := hchain.linked
  have hlength := hchain.length_lt
  have hnodup := hchain.addresses_nodup
  have hunused := unused_of_fresh hrep hfresh name
  rw [hcells] at hlinked hlength hnodup hunused
  have hbucket : ∀ token, (tbl.setToken address token).bucket
      (hashValue charValue tbl.hashSize name) =
        some (tbl.table (hashValue charValue tbl.hashSize name)) :=
    fun _ => if_pos (hrep.index_lt name)
  have hchained : Segment (tbl.setToken address (some ⟨none, name, value⟩)).tokens
      (tbl.table (hashValue charValue tbl.hashSize name)) (front ++ [(last, binding)]) none :=
    hlinked.frame_update hunused _
  obtain ⟨place, hplace⟩ :
      ∃ place, tbl.table (hashValue charValue tbl.hashSize name) = some place := by
    cases front with
    | nil => exact ⟨_, hlinked.1⟩
    | cons cell front => exact ⟨_, hlinked.1⟩
  obtain ⟨link, hlast⟩ := hchained.exists_cell (List.mem_append_right front
    (List.mem_singleton_self _))
  rw [hplace] at hchained
  have hseek := lastCell_spec hchained
    (lt_of_le_of_lt (by simp) hlength : front.length < loopFuel)
  refine ⟨(tbl.setToken address (some ⟨none, name, value⟩)).setToken last
    (some ⟨some address, binding⟩), ?_, rfl, ?_⟩
  · simp only [setHashValue, hfind, createToken, hbucket, hplace, hseek, hlast,
      Option.bind_eq_bind, Option.bind_some, if_true, setToken_hashSize]
  · refine Models.append hrep hmap ⟨name, value⟩ hnew haddress rfl (fun _ _ => rfl) ?_ ?_
    · intro other token hother hmem
      refine (Function.update_of_ne ?_ _ _).trans (Function.update_of_ne ?_ _ _)
      · rintro rfl
        exact hmem (by simp [hcells])
      · rintro rfl
        simp [hfresh] at hother
    · rw [hcells]
      exact hlinked.link_last hnodup hunused

/-- The chain of a new name, with the new token linked behind it. -/
theorem setHashValue_new (hrep : Represents charValue tbl chains)
    (hmap : ∀ name, map name =
      LimitedMap.lookupIn (entries (chains (hashValue charValue tbl.hashSize name))) name)
    {name : CString}
    (hnew : ∀ cell ∈ chains (hashValue charValue tbl.hashSize name), cell.2.name ≠ name)
    (hfind : tbl.findToken charValue name false = some (none, tbl)) {address : Nat}
    (hfresh : tbl.tokens address = none) (haddress : 0 < address ∧ address < loopFuel)
    (value : Option Value) (retval : Option (Option Value)) :
    ∃ next, tbl.setHashValue charValue (some name) value retval ⟨some address, true⟩ =
        some (⟨0, retval.map fun _ => none⟩, next) ∧
      next.hashSize = tbl.hashSize ∧
      Models charValue next (Function.update map name (some value)) := by
  rcases List.eq_nil_or_concat (chains (hashValue charValue tbl.hashSize name)) with
    hcells | ⟨front, ⟨last, binding⟩, hcells⟩
  · exact setHashValue_empty hrep hmap hcells hfind hfresh haddress value retval
  · rw [List.concat_eq_append] at hcells
    exact setHashValue_behind hrep hmap hnew hcells hfind hfresh haddress value retval

/-- What the map says of a name that a token of its chain has. -/
theorem map_of_split (hrep : Represents charValue tbl chains)
    (hmap : ∀ name, map name =
      LimitedMap.lookupIn (entries (chains (hashValue charValue tbl.hashSize name))) name)
    {front back : List (Nat × Binding Value)} {place : Nat} {binding : Binding Value}
    (hsplit : chains (hashValue charValue tbl.hashSize binding.name) =
      front ++ (place, binding) :: back) : map binding.name = some binding.value := by
  have hchain := hrep.hashChain binding.name
  rw [hsplit] at hchain
  rw [hmap, hsplit, lookup_middle hchain, if_pos rfl]

/-- What the map says of a name that no token of its chain has. -/
theorem map_of_absent
    (hmap : ∀ name, map name =
      LimitedMap.lookupIn (entries (chains (hashValue charValue tbl.hashSize name))) name)
    {name : CString}
    (hnone : ∀ cell ∈ chains (hashValue charValue tbl.hashSize name), cell.2.name ≠ name) :
    map name = none := by
  rw [hmap, LimitedMap.lookupIn_eq_none]
  intro entry hentry
  obtain ⟨cell, hcell, rfl⟩ := List.mem_map.mp hentry
  exact hnone cell hcell

theorem getHashValue_spec (hmodels : Models charValue tbl map) (name : Option CString)
    (retval : Option (Option Value)) :
    tbl.getHashValue charValue name retval = some (mapAnswer map (.get name retval)) := by
  obtain ⟨chains, hrep, hmap⟩ := hmodels
  match name, retval with
  | none, _ => rfl
  | some name, none => rfl
  | some name, some old =>
      rcases findToken_cases hrep name with
        ⟨front, place, binding, back, next, hsplit, rfl, htoken, hfind, -⟩ | ⟨hnone, hfind⟩
      · simp [getHashValue, hfind, htoken, mapAnswer, map_of_split hrep hmap hsplit]
      · simp [getHashValue, hfind, mapAnswer, map_of_absent hmap hnone]

theorem delHashValue_spec (hmodels : Models charValue tbl map) (name : Option CString)
    (retval : Option (Option Value)) :
    ∃ next, tbl.delHashValue charValue name retval =
        some (mapAnswer map (.del name retval), next) ∧
      ((mapAnswer map (.del name retval)).ret ≠ 0 → next = tbl) ∧
      next.hashSize = tbl.hashSize ∧ Models charValue next (mapStep map (.del name retval)) := by
  cases name with
  | none => exact ⟨tbl, rfl, fun _ => rfl, rfl, hmodels⟩
  | some name =>
      obtain ⟨chains, hrep, hmap⟩ := hmodels
      rcases findToken_cases hrep name with
        ⟨front, place, binding, back, next, hsplit, rfl, htoken, -, tbl', hfind, hunlinked⟩ |
        ⟨hnone, hfind⟩
      · have hmapped := map_of_split hrep hmap hsplit
        have hnodup := (hrep.hashChain binding.name).addresses_nodup
        rw [hsplit, List.map_append, List.nodup_append] at hnodup
        have hkept : tbl'.tokens place = some ⟨next, binding⟩ := by
          rw [hunlinked.tokens place fun hmem => hnodup.2.2 place hmem place (by simp) rfl, htoken]
        refine ⟨tbl'.setToken place none, ?_, ?_, hunlinked.size, ?_⟩
        · simp [delHashValue, hfind, hkept, mapAnswer, hmapped]
        · simp [mapAnswer, hmapped]
        · exact Models.erase hrep hmap hsplit hunlinked
      · have hmapped := map_of_absent hmap hnone
        refine ⟨tbl, ?_, fun _ => rfl, rfl, chains, hrep, fun other => ?_⟩
        · simp [delHashValue, hfind, mapAnswer, hmapped]
        · rw [mapStep, ← hmap other]
          by_cases hother : other = name
          · rw [hother, Function.update_self, hmapped]
          · rw [Function.update_of_ne hother]

theorem setHashValue_spec (hmodels : Models charValue tbl map) (name : Option CString)
    (value : Option Value) (retval : Option (Option Value)) (memory : Allocation)
    (hfresh : FreshMemory tbl (.set name value retval memory)) :
    ∃ next, tbl.setHashValue charValue name value retval memory =
        some (mapAnswer map (.set name value retval memory), next) ∧
      ((mapAnswer map (.set name value retval memory)).ret ≠ 0 → next = tbl) ∧
      next.hashSize = tbl.hashSize ∧
      Models charValue next (mapStep map (.set name value retval memory)) := by
  cases name with
  | none => exact ⟨tbl, rfl, fun _ => rfl, rfl, hmodels⟩
  | some name =>
      obtain ⟨chains, hrep, hmap⟩ := hmodels
      rcases findToken_cases hrep name with
        ⟨front, place, binding, back, next, hsplit, rfl, htoken, hfind, -⟩ | ⟨hnone, hfind⟩
      · have hmapped := map_of_split hrep hmap hsplit
        refine ⟨tbl.setToken place (some ⟨next, { binding with value := value }⟩), ?_, ?_, rfl, ?_⟩
        · simp [setHashValue, hfind, htoken, mapAnswer, hmapped, Function.comp_def]
        · simp [mapAnswer, hmapped]
        · simpa [mapStep, hmapped] using Models.write hrep hmap hsplit htoken value
      · have hmapped := map_of_absent hmap hnone
        obtain ⟨_ | address, hcopied⟩ := memory
        · refine ⟨tbl, ?_, fun _ => rfl, rfl, ?_⟩
          · simp [setHashValue, hfind, createToken, mapAnswer, hmapped, Allocation.granted]
          · simpa [mapStep, hmapped, Allocation.granted] using ⟨chains, hrep, hmap⟩
        · cases hcopied with
          | false =>
              refine ⟨tbl, ?_, fun _ => rfl, rfl, ?_⟩
              · simp [setHashValue, hfind, createToken, mapAnswer, hmapped, Allocation.granted]
              · simpa [mapStep, hmapped, Allocation.granted] using ⟨chains, hrep, hmap⟩
          | true =>
              obtain ⟨hunused, haddress⟩ := hfresh _ _ _ _ address rfl rfl
              obtain ⟨next, hset, hsize, hnext⟩ := setHashValue_new hrep hmap hnone (hfind false)
                hunused haddress value retval
              refine ⟨next, ?_, ?_, hsize, ?_⟩
              · simpa [mapAnswer, hmapped, Allocation.granted] using hset
              · simp [mapAnswer, hmapped, Allocation.granted]
              · simpa [mapStep, hmapped, Allocation.granted] using hnext

/-- The bindings of a chain. -/
def bindings (chain : List (Nat × Binding Value)) : List (Binding Value) := chain.map Prod.snd

/-- What a callback was shown of a chain is logged behind what it was shown
before. -/
theorem callbackOn_foldl (callback : IterFunc Value) (chain : List (Nat × Binding Value))
    (log : List (Binding Value)) :
    chain.foldl (fun log cell => (callbackOn callback cell.2 log).2) log =
      log ++ bindings chain := by
  induction chain generalizing log with
  | nil => simp [bindings]
  | cons cell chain ih =>
      rw [List.foldl_cons, ih]
      simp [bindings, callbackOn]

/-- A callback that never breaks is shown every chain from index `i` on. -/
theorem iterFrom_spec (hrep : Represents charValue tbl chains) {callback : IterFunc Value}
    (hstay : ∀ log shown, callback log shown = .continue) (count i : Nat)
    (hrange : i + count ≤ tbl.hashSize) (log : List (Binding Value)) :
    tbl.iterFrom callback count i log =
      some (0, log ++ (List.range' i count).flatMap fun index => bindings (chains index)) := by
  induction count generalizing i log with
  | zero => simp [iterFrom]
  | succ count ih =>
      have hindex : i < tbl.hashSize := by omega
      have hchain := hrep.chain i hindex
      have hbucket : tbl.bucket i = some (tbl.table i) := if_pos hindex
      have hrest := ih (i + 1) (by omega)
      rw [iterFrom, hbucket, List.range'_succ, List.flatMap_cons]
      cases hhead : tbl.table i with
      | none =>
          have hempty : chains i = [] := by
            have hlinked := hchain.linked
            rw [hhead] at hlinked
            cases hcells : chains i with
            | nil => rfl
            | cons cell cells =>
                rw [hcells] at hlinked
                exact absurd hlinked.1 (by simp)
          simp [hrest, hempty, bindings]
      | some node =>
          have hvisit := visitCells_spec (callbackOn callback)
            (fun shown log => by simp [callbackOn, hstay]) log (hhead ▸ hchain.linked)
            hchain.length_lt
          simp [hvisit, callbackOn_foldl, hrest]

/-- Every iteration comes to an end. -/
theorem iterFrom_defined (hrep : Represents charValue tbl chains) (callback : IterFunc Value)
    (count i : Nat) (hrange : i + count ≤ tbl.hashSize) (log : List (Binding Value)) :
    ∃ result, tbl.iterFrom callback count i log = some result := by
  induction count generalizing i log with
  | zero => exact ⟨_, rfl⟩
  | succ count ih =>
      have hindex : i < tbl.hashSize := by omega
      have hchain := hrep.chain i hindex
      have hbucket : tbl.bucket i = some (tbl.table i) := if_pos hindex
      have hrest := ih (i + 1) (by omega)
      rw [iterFrom, hbucket]
      cases hhead : tbl.table i with
      | none => exact hrest log
      | some node =>
          obtain ⟨⟨leave, log'⟩, hvisit⟩ := visitCells_defined (callbackOn callback) log
            (hhead ▸ hchain.linked) hchain.length_lt
          simp only [Option.bind_eq_bind, Option.bind_some, hvisit]
          cases leave with
          | true => exact ⟨_, rfl⟩
          | false => exact hrest log'

/-- The bindings of all chains are the bindings of the map, each once. -/
theorem bindings_spec (hrep : Represents charValue tbl chains)
    (hmap : ∀ name, map name =
      LimitedMap.lookupIn (entries (chains (hashValue charValue tbl.hashSize name))) name) :
    (((List.range' 0 tbl.hashSize).flatMap fun index => bindings (chains index)).map
        Binding.name).Nodup ∧
      ∀ binding, binding ∈ (List.range' 0 tbl.hashSize).flatMap
          (fun index => bindings (chains index)) ↔ map binding.name = some binding.value := by
  constructor
  · rw [List.map_flatMap, List.nodup_flatMap]
    constructor
    · intro index hindex
      have hdistinct := (hrep.chain index (by simpa using hindex)).distinct
      simpa [bindings, Function.comp_def] using hdistinct
    · refine (List.nodup_range' 1).imp_of_mem ?_
      intro index other hindex hother hne name hname hname'
      simp only [bindings, List.map_map, List.mem_map, Function.comp_apply] at hname hname'
      obtain ⟨cell, hcell, rfl⟩ := hname
      obtain ⟨cell', hcell', hsame⟩ := hname'
      exact hne (by
        rw [← (hrep.chain index (by simpa using hindex)).placed cell hcell, ← hsame,
          (hrep.chain other (by simpa using hother)).placed cell' hcell'])
  · intro binding
    simp only [List.mem_flatMap, List.mem_range'_1, bindings, List.mem_map]
    constructor
    · rintro ⟨index, hindex, cell, hcell, rfl⟩
      obtain rfl := (hrep.chain index (by omega)).placed cell hcell
      obtain ⟨front, back, hsplit⟩ := List.append_of_mem hcell
      exact map_of_split hrep hmap hsplit
    · intro hmapped
      refine ⟨hashValue charValue tbl.hashSize binding.name,
        ⟨Nat.zero_le _, by simpa using hrep.index_lt binding.name⟩, ?_⟩
      rw [hmap, LimitedMap.lookupIn, Option.map_eq_some_iff] at hmapped
      obtain ⟨entry, hfind, hvalue⟩ := hmapped
      have hname : entry.1 = binding.name := by simpa using List.find?_some hfind
      obtain ⟨cell, hcell, rfl⟩ := List.mem_map.mp (List.mem_of_find?_eq_some hfind)
      refine ⟨cell, hcell, ?_⟩
      obtain ⟨address, name, value⟩ := cell
      obtain ⟨name', value'⟩ := binding
      exact congr (congrArg Binding.mk hname) hvalue

/-- Every call on a table that stands for a map does its work. -/
theorem serve_spec (hmodels : Models charValue tbl map) {call : TableCall Value}
    (hfresh : FreshMemory tbl call) :
    ∃ response next, tbl.serve charValue call = some (response, next) ∧
      Served charValue tbl map call response next := by
  cases call with
  | set name value retval memory =>
      obtain ⟨next, hset, hfailed, hsize, hnext⟩ :=
        setHashValue_spec hmodels name value retval memory hfresh
      refine ⟨⟨mapAnswer map (.set name value retval memory), []⟩, next, ?_,
        fun _ => rfl, ?_, hfailed, hnext, hsize⟩
      · rw [serve, hset, Option.map_some]
      · rintro - callback ⟨⟩
  | get name retval =>
      refine ⟨⟨mapAnswer map (.get name retval), []⟩, tbl, ?_, fun _ => rfl, ?_, fun _ => rfl,
        hmodels, rfl⟩
      · rw [serve, getHashValue_spec hmodels, Option.map_some]
      · rintro - callback ⟨⟩
  | del name retval =>
      obtain ⟨next, hdel, hfailed, hsize, hnext⟩ := delHashValue_spec hmodels name retval
      refine ⟨⟨mapAnswer map (.del name retval), []⟩, next, ?_, fun _ => rfl, ?_, hfailed, hnext,
        hsize⟩
      · rw [serve, hdel, Option.map_some]
      · rintro - callback ⟨⟩
  | iter callback =>
      cases callback with
      | none =>
          exact ⟨⟨⟨-1, none⟩, []⟩, tbl, rfl, fun _ => rfl, fun _ _ => nofun,
            fun _ => rfl, hmodels, rfl⟩
      | some callback =>
          obtain ⟨chains, hrep, hmap⟩ := hmodels
          obtain ⟨⟨ret, log⟩, hiter⟩ := iterFrom_defined hrep callback tbl.hashSize 0
            (Nat.le_of_eq (Nat.zero_add _)) []
          have hshown : NeverBreaks (.iter (some callback)) →
              (ret, log) = (0, (List.range' 0 tbl.hashSize).flatMap fun index =>
                bindings (chains index)) := by
            intro hstay
            have hall := iterFrom_spec hrep (hstay callback rfl) tbl.hashSize 0
              (Nat.le_of_eq (Nat.zero_add _)) []
            exact Option.some.inj (hiter.symm.trans hall)
          refine ⟨⟨⟨ret, none⟩, log⟩, tbl, ?_, ?_, ?_, fun _ => rfl, ⟨chains, hrep, hmap⟩, rfl⟩
          · rw [serve, iterHashTable, hiter, Option.map_some]
          · intro hstay
            rw [(Prod.mk.inj (hshown hstay)).1]
            rfl
          · intro hstay _ _
            rw [(Prod.mk.inj (hshown hstay)).2]
            exact bindings_spec hrep hmap

end Calls

/-! ## Whole runs -/

/-- A call on a table, and on the map beside it. -/
def tableStep (state : TableInfo Value × NameMap Value) (call : TableCall Value) :
    Option (TableInfo Value × NameMap Value) :=
  (state.1.serve charValue call).map fun result => (result.2, mapStep state.2 call)

/-- The empty table stands for the empty map. -/
theorem empty_models {hashSize : Nat} (hsize : 0 < hashSize) :
    Models charValue (⟨hashSize, fun _ => none, fun _ => none⟩ : TableInfo Value) fun _ => none :=
  ⟨fun _ => [], ⟨hsize, fun _ _ => ⟨rfl, by simp, by simp, by simp⟩⟩, fun _ => rfl⟩

/-- A table is created for every size above zero when there is memory for it; its
size is a power of two, and every call of every sequence, whatever memory it is
granted, does to the table what it does to a map. -/
theorem table_refines_map (hashSize : Nat) (hsize : 1 ≤ hashSize) :
    ∃ tbl : TableInfo Value, initHashTable hashSize true = (0, some tbl) ∧
      (∃ high, tbl.hashSize = 2 ^ high) ∧
      ∀ calls : List (TableCall Value),
        Promised (tableStep charValue) (fun state call => FreshMemory state.1 call)
          (tbl, fun _ => none) calls →
        Promised (tableStep charValue)
          (fun state call => ∃ response next, state.1.serve charValue call = some (response, next) ∧
            Served charValue state.1 state.2 call response next) (tbl, fun _ => none) calls := by
  obtain ⟨high, hhigh⟩ := realHashSize_eq_two_pow hsize
  have hpos : 0 < realHashSize hashSize := hhigh ▸ Nat.two_pow_pos high
  have hinit : initHashTable hashSize true =
      (0, some (⟨realHashSize hashSize, fun _ => none, fun _ => none⟩ : TableInfo Value)) := by
    rw [initHashTable, if_neg hpos.ne', if_pos rfl]
  refine ⟨_, hinit, ⟨high, hhigh⟩, fun calls hfresh => ?_⟩
  refine Promised.imp_invariant (fun state => Models charValue state.1 state.2) ?_ ?_
    (empty_models charValue hpos) hfresh
  · intro state call hmodels hmemory
    exact serve_spec hmodels hmemory
  · intro state call next hmodels hmemory hstep
    obtain ⟨response, tbl, hserve, hserved⟩ := serve_spec hmodels hmemory
    rw [tableStep, hserve, Option.map_some] at hstep
    obtain rfl := Option.some.inj hstep
    exact hserved.models

/-- Two names of one bucket, of which the second finds no memory at first. -/
theorem table_refines_map_colliding :
    ∃ tbl : TableInfo Nat, initHashTable 1 true = (0, some tbl) ∧
      Promised (tableStep UInt8.toUInt32)
        (fun state call => ∃ response next,
          state.1.serve UInt8.toUInt32 call = some (response, next) ∧
            Served UInt8.toUInt32 state.1 state.2 call response next) (tbl, fun _ => none)
        [.set (some ⟨[97], by decide⟩) (some 1) none ⟨some 16, true⟩,
          .set (some ⟨[98], by decide⟩) (some 2) none ⟨none, false⟩,
          .set (some ⟨[98], by decide⟩) (some 2) none ⟨some 32, true⟩,
          .del (some ⟨[97], by decide⟩) (some none)] := by
  obtain ⟨tbl, hinit, -, hcalls⟩ := table_refines_map UInt8.toUInt32 1 (by decide)
  refine ⟨tbl, hinit, hcalls _ ?_⟩
  obtain rfl := Option.some.inj (Prod.mk.inj hinit).2
  refine Promised.cons ?_ rfl (Promised.cons ?_ rfl (Promised.cons ?_ rfl
    (Promised.cons ?_ rfl trivial)))
  · rintro _ _ _ _ _ ⟨⟩ ⟨⟩
    exact ⟨rfl, by decide, by decide⟩
  · rintro _ _ _ _ _ ⟨⟩ ⟨⟩
  · rintro _ _ _ _ _ ⟨⟩ ⟨⟩
    exact ⟨rfl, by decide, by decide⟩
  · rintro _ _ _ _ _ ⟨⟩

end TableInfo

end McuProxy.Ckits
