/-
# The hash table

`hashTable.c` keeps tokens in chains, one for each value of a masked hash. The
table is an array of links into a heap of tokens. A token owns a copy of its
name and stores the value as it was given; values are pointers, and the null
pointer is a value like any other.

What `_tkmalloc` and the copy of the name get from the allocator is part of a
call. An access outside the array, or through a link to something that is not a
token, is undefined; that it does not happen is part of what is proved.
-/

import McuProxy.Math.CString
import McuProxy.Memory.Chain
import McuProxy.Memory.Ring

namespace McuProxy.Ckits

open McuProxy.Math McuProxy.Memory

/-- `CONST_MAX_HASHSIZE`. -/
def constMaxHashsize : Nat := 4096

/-- The loop of `realHashSize`, for a number of turns. -/
def testbitLoop (hashSize : Nat) : Nat → Nat → Nat
  | 0, testbit => testbit
  | turns + 1, testbit =>
      if hashSize &&& testbit ≠ 0 then testbit
      else if testbit >>> 1 ≠ 0 then testbitLoop hashSize turns (testbit >>> 1)
      else testbit >>> 1

/-- `realHashSize`: the highest bit of the size, or the limit. The bit is shifted
out after thirteen turns. -/
def realHashSize (hashSize : Nat) : Nat :=
  if hashSize > constMaxHashsize then constMaxHashsize
  else testbitLoop hashSize 13 constMaxHashsize

/-- What a token holds besides its link: `name` and `value`. -/
structure Binding (Value : Type) where
  name : CString
  value : Option Value
  deriving DecidableEq

/-- `hashToken`. -/
abbrev HashToken (Value : Type) : Type := Cell (Binding Value)

/-- `tableInfo`, with the tokens that are allocated. -/
structure TableInfo (Value : Type) where
  hashSize : Nat
  table : Nat → Option Nat
  tokens : Nat → Option (HashToken Value)

namespace TableInfo

variable {Value : Type} (charValue : UInt8 → UInt32)

/-- `djb2_hash`. -/
def djb2Hash (str : CString) (count : Int) : UInt32 :=
  djb2 charValue str.1 (if count < 0 ∨ count ≥ 7 then 7 else count.toNat) 5381

/-- The index that a name is looked for under. -/
def hashValue (hashSize : Nat) (name : CString) : Nat :=
  (djb2Hash charValue name (-1)).toNat &&& (hashSize - 1)

/-- `initHashTable`; `memory` is whether `_malloc` had room for the table. -/
def initHashTable (hashSize : Nat) (memory : Bool) : Int × Option (TableInfo Value) :=
  let hashSize := realHashSize hashSize
  if hashSize = 0 then (-1, none)
  else if memory then (0, some ⟨hashSize, fun _ => none, fun _ => none⟩)
  else (-1, none)

/-- `tbl->_table[index]`. -/
def bucket (tbl : TableInfo Value) (index : Nat) : Option (Option Nat) :=
  if index < tbl.hashSize then some (tbl.table index) else none

/-- `tbl->_table[index] = place`. -/
def setBucket (tbl : TableInfo Value) (index : Nat) (place : Option Nat) :
    Option (TableInfo Value) :=
  if index < tbl.hashSize then some { tbl with table := Function.update tbl.table index place }
  else none

/-- A write to the token at an address. -/
def setToken (tbl : TableInfo Value) (place : Nat) (token : Option (HashToken Value)) :
    TableInfo Value :=
  { tbl with tokens := Function.update tbl.tokens place token }

/-- `findToken`: the token with the name, unlinked when `delFlag` is set. -/
def findToken (tbl : TableInfo Value) (name : CString) (delFlag : Bool) :
    Option (Option Nat × TableInfo Value) := do
  let index := hashValue charValue tbl.hashSize name
  match ← tbl.bucket index with
  | none => some (none, tbl)
  | some hashPlace =>
      let token ← tbl.tokens hashPlace
      if name = token.content.name then
        if delFlag then
          let tbl ← tbl.setBucket index token.next
          some (some hashPlace, tbl)
        else some (some hashPlace, tbl)
      else
        match ← seek tbl.tokens (fun binding => name = binding.name) loopFuel hashPlace
          token.next with
        | (_, none) => some (none, tbl)
        | (prevPlace, some hashPlace) =>
            if delFlag then
              let token ← tbl.tokens hashPlace
              let prev ← tbl.tokens prevPlace
              some (some hashPlace, tbl.setToken prevPlace (some { prev with next := token.next }))
            else some (some hashPlace, tbl)

/-- What an insertion gets from the allocator: the address of a token, and
whether there is room for a copy of the name. -/
structure Allocation where
  token : Option Nat
  name : Bool

/-- `createToken`. -/
def createToken (tbl : TableInfo Value) (name : CString) (value : Option Value)
    (memory : Allocation) : Option Nat × TableInfo Value :=
  match memory.token with
  | none => (none, tbl)
  | some address =>
      if memory.name then (some address, tbl.setToken address (some ⟨none, name, value⟩))
      else (none, tbl)

/-- What a call returns and leaves in `*retval`, which is `none` when the caller
gave no place for it. -/
structure Answer (Value : Type) where
  ret : Int
  retval : Option (Option Value)
  deriving DecidableEq

/-- `setHashValue`. -/
def setHashValue (tbl : TableInfo Value) (name : Option CString) (value : Option Value)
    (retval : Option (Option Value)) (memory : Allocation) :
    Option (Answer Value × TableInfo Value) := do
  let retval := retval.map fun _ => none
  match name with
  | none => some (⟨-1, retval⟩, tbl)
  | some name =>
      let (found, tbl) ← tbl.findToken charValue name false
      match found with
      | some place =>
          let token ← tbl.tokens place
          some (⟨0, retval.map fun _ => token.content.value⟩,
            tbl.setToken place (some ⟨token.next, { token.content with value := value }⟩))
      | none =>
          match tbl.createToken name value memory with
          | (none, tbl) => some (⟨-1, retval⟩, tbl)
          | (some newToken, tbl) =>
              let index := hashValue charValue tbl.hashSize name
              match ← tbl.bucket index with
              | none =>
                  let tbl ← tbl.setBucket index (some newToken)
                  some (⟨0, retval⟩, tbl)
              | some hashPlace =>
                  let last ← lastCell tbl.tokens loopFuel hashPlace
                  let token ← tbl.tokens last
                  some (⟨0, retval⟩, tbl.setToken last (some { token with next := some newToken }))

/-- `getHashValue`. -/
def getHashValue (tbl : TableInfo Value) (name : Option CString) (retval : Option (Option Value)) :
    Option (Answer Value) := do
  match name, retval with
  | some name, some _ =>
      match ← tbl.findToken charValue name false with
      | (none, _) => some ⟨-1, retval⟩
      | (some place, tbl) =>
          let token ← tbl.tokens place
          some ⟨0, some token.content.value⟩
  | _, _ => some ⟨-1, retval⟩

/-- `delHashValue`, with `deleteToken`. -/
def delHashValue (tbl : TableInfo Value) (name : Option CString) (retval : Option (Option Value)) :
    Option (Answer Value × TableInfo Value) := do
  match name with
  | none => some (⟨-1, retval⟩, tbl)
  | some name =>
      match ← tbl.findToken charValue name true with
      | (none, tbl) => some (⟨-1, retval⟩, tbl)
      | (some place, tbl) =>
          let token ← tbl.tokens place
          some (⟨0, retval.map fun _ => token.content.value⟩, tbl.setToken place none)

/-- `ITERCTRL_CONTINUE` and `ITERCTRL_BREAK`. -/
inductive IterCtrl
  | continue
  | break
  deriving DecidableEq

/-- A callback decides from what it was shown before and is shown now; what it
was shown is the log of the iteration. -/
abbrev IterFunc (Value : Type) : Type := List (Binding Value) → Binding Value → IterCtrl

/-- One call of the callback. -/
def callbackOn (callback : IterFunc Value) (shown : Binding Value) (log : List (Binding Value)) :
    Bool × List (Binding Value) :=
  (callback log shown = .break, log ++ [shown])

/-- The loop of `iterHashTable` over the rest of the array, from index `i`. -/
def iterFrom (tbl : TableInfo Value) (callback : IterFunc Value) :
    Nat → Nat → List (Binding Value) → Option (Int × List (Binding Value))
  | 0, _, log => some (0, log)
  | count + 1, i, log => do
      match ← tbl.bucket i with
      | none => iterFrom tbl callback count (i + 1) log
      | some node =>
          match ← visitCells tbl.tokens (callbackOn callback) loopFuel node log with
          | (true, log) => some (-1, log)
          | (false, log) => iterFrom tbl callback count (i + 1) log

/-- `iterHashTable`: its result, and what the callback was shown. -/
def iterHashTable (tbl : TableInfo Value) (callback : Option (IterFunc Value)) :
    Option (Int × List (Binding Value)) :=
  match callback with
  | none => some (-1, [])
  | some callback => tbl.iterFrom callback tbl.hashSize 0 []

end TableInfo

end McuProxy.Ckits
