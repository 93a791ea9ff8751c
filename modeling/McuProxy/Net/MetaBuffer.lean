/-
# Buffers with metadata

`MetaBuffer` is a block of bytes, the range of it that is in use, and a short
table of named values. Names are atomized before they are compared, so two names
are the same item exactly when they are the same text. The table holds at most
`kMaxNumItems` values; setting one more fails the `CHECK` of `allocateItem` and
the program ends there, which makes the operation undefined. So does a write
outside the block.
-/

import Mathlib.Data.List.Basic
import Mathlib.Data.UInt

namespace McuProxy.Net

/-- `status_t`. `OK` and `NO_ERROR` are one value; the last is a plain `-1`. -/
inductive Status
  | noError
  | unknownError
  | badValue
  | nameNotFound
  | deadObject
  | noInit
  | minusOne
  deriving DecidableEq, Repr

/-- The values of the metadata that the network code uses. -/
inductive Value
  | int32 (value : Int32)
  | int64 (value : Int64)
  deriving DecidableEq

/-- `MetaBuffer::Item`. -/
structure Item where
  mName : String
  u : Value
  deriving DecidableEq

structure MetaBuffer where
  mData : List UInt8
  mRangeOffset : Nat
  mRangeLength : Nat
  mQuickData : UInt32
  mItems : List Item
  deriving DecidableEq

namespace MetaBuffer

def kMaxNumItems : Nat := 12

/-- `create` with memory from the heap, whose contents are not initialised. -/
def create (junk : List UInt8) : MetaBuffer := ⟨junk, 0, junk.length, 0, []⟩

def capacity (buffer : MetaBuffer) : Nat := buffer.mData.length

def size (buffer : MetaBuffer) : Nat := buffer.mRangeLength

/-- The bytes from `data()` on. -/
def data (buffer : MetaBuffer) : List UInt8 := buffer.mData.drop buffer.mRangeOffset

/-- The bytes of the range. -/
def bytes (buffer : MetaBuffer) : List UInt8 := buffer.data.take buffer.size

def setRange (buffer : MetaBuffer) (offset size : Nat) : MetaBuffer :=
  { buffer with mRangeOffset := offset, mRangeLength := size }

def setQuickData (buffer : MetaBuffer) (data : UInt32) : MetaBuffer :=
  { buffer with mQuickData := data }

/-- Store bytes from `data()` on. -/
def write (buffer : MetaBuffer) (bytes : List UInt8) : Option MetaBuffer :=
  if buffer.mRangeOffset + bytes.length ≤ buffer.capacity then
    some { buffer with
      mData := buffer.mData.take buffer.mRangeOffset ++ bytes ++
        buffer.mData.drop (buffer.mRangeOffset + bytes.length) }
  else none

/-- `allocateItem` followed by the assignment of the value: the item of that name
is overwritten, and a new name is put behind the others. -/
def setItems (name : String) (value : Value) : List Item → List Item
  | [] => [⟨name, value⟩]
  | item :: items =>
      if item.mName = name then ⟨name, value⟩ :: items
      else item :: setItems name value items

def setItem (buffer : MetaBuffer) (name : String) (value : Value) : Option MetaBuffer :=
  if (∃ item ∈ buffer.mItems, item.mName = name) ∨ buffer.mItems.length < kMaxNumItems then
    some { buffer with mItems := setItems name value buffer.mItems }
  else none

def setInt32 (buffer : MetaBuffer) (name : String) (value : Int32) : Option MetaBuffer :=
  buffer.setItem name (.int32 value)

def setInt64 (buffer : MetaBuffer) (name : String) (value : Int64) : Option MetaBuffer :=
  buffer.setItem name (.int64 value)

/-- The search of `findItem`, without its check of the type. -/
def findValue (buffer : MetaBuffer) (name : String) : Option Value :=
  (buffer.mItems.find? fun item => item.mName = name).map Item.u

def findInt32 (buffer : MetaBuffer) (name : String) : Option Int32 :=
  match buffer.findValue name with
  | some (.int32 value) => some value
  | _ => none

def findInt64 (buffer : MetaBuffer) (name : String) : Option Int64 :=
  match buffer.findValue name with
  | some (.int64 value) => some value
  | _ => none

theorem findInt32_eq {buffer : MetaBuffer} {name : String} {value : Int32}
    (hfind : buffer.findValue name = some (.int32 value)) :
    buffer.findInt32 name = some value := by
  rw [findInt32, hfind]

theorem findInt64_eq {buffer : MetaBuffer} {name : String} {value : Int64}
    (hfind : buffer.findValue name = some (.int64 value)) :
    buffer.findInt64 name = some value := by
  rw [findInt64, hfind]

theorem find_setItems_same (name : String) (value : Value) (items : List Item) :
    (setItems name value items).find? (fun item => item.mName = name) = some ⟨name, value⟩ := by
  induction items with
  | nil => simp [setItems]
  | cons item items ih =>
      by_cases hname : item.mName = name
      · simp [setItems, hname]
      · simp only [setItems, hname, if_false]
        rw [List.find?_cons_of_neg (by simpa using hname), ih]

theorem find_setItems_of_ne {name other : String} (hne : other ≠ name) (value : Value)
    (items : List Item) :
    (setItems name value items).find? (fun item => item.mName = other) =
      items.find? (fun item => item.mName = other) := by
  induction items with
  | nil => simp [setItems, hne.symm]
  | cons item items ih =>
      by_cases hname : item.mName = name
      · have hother : item.mName ≠ other := fun heq => hne (heq.symm.trans hname)
        simp only [setItems, hname, if_true]
        rw [List.find?_cons_of_neg (by simpa using hne.symm),
          List.find?_cons_of_neg (by simpa using hother)]
      · simp only [setItems, hname, if_false, List.find?_cons, ih]

theorem length_setItems_le (name : String) (value : Value) (items : List Item) :
    (setItems name value items).length ≤ items.length + 1 := by
  induction items with
  | nil => simp [setItems]
  | cons item items ih =>
      simp only [setItems]
      split
      · simp
      · simpa using ih

/-- What a value set under one name changes: that value, and nothing outside the
table. -/
structure Tagged (buffer tagged : MetaBuffer) (name : String) (value : Value) : Prop where
  same : tagged.findValue name = some value
  others : ∀ other, other ≠ name → tagged.findValue other = buffer.findValue other
  data : tagged.mData = buffer.mData
  offset : tagged.mRangeOffset = buffer.mRangeOffset
  length : tagged.mRangeLength = buffer.mRangeLength
  items : tagged.mItems.length ≤ buffer.mItems.length + 1

theorem setItem_tagged {buffer tagged : MetaBuffer} {name : String} {value : Value}
    (hset : buffer.setItem name value = some tagged) : Tagged buffer tagged name value := by
  unfold setItem at hset
  split at hset
  · obtain rfl := Option.some.inj hset
    refine ⟨?_, ?_, rfl, rfl, rfl, length_setItems_le _ _ _⟩
    · rw [findValue, find_setItems_same]
      rfl
    · intro other hne
      rw [findValue, find_setItems_of_ne hne, findValue]
  · cases hset

/-- A value can be set as long as the table has room. -/
theorem exists_setInt32 (buffer : MetaBuffer) (hroom : buffer.mItems.length < kMaxNumItems)
    (name : String) (value : Int32) :
    ∃ tagged, buffer.setInt32 name value = some tagged ∧
      Tagged buffer tagged name (.int32 value) := by
  obtain ⟨tagged, hset⟩ : ∃ tagged, buffer.setItem name (.int32 value) = some tagged :=
    ⟨_, if_pos (Or.inr hroom)⟩
  exact ⟨tagged, hset, setItem_tagged hset⟩

/-- Bytes written from `data()` on are the first ones read there. -/
theorem data_write {buffer written : MetaBuffer} {bytes : List UInt8}
    (hwrite : buffer.write bytes = some written) :
    written.data = bytes ++ buffer.data.drop bytes.length ∧
      written.mData.length = buffer.mData.length ∧ written.mRangeOffset = buffer.mRangeOffset ∧
        written.mRangeLength = buffer.mRangeLength ∧ written.mItems = buffer.mItems := by
  unfold write at hwrite
  split at hwrite
  · rename_i hfit
    obtain rfl := Option.some.inj hwrite
    have htake : (buffer.mData.take buffer.mRangeOffset).length = buffer.mRangeOffset := by
      rw [List.length_take]
      simp only [capacity] at hfit
      omega
    refine ⟨?_, ?_, rfl, rfl, rfl⟩
    · simp only [data, List.append_assoc, List.drop_drop]
      rw [List.drop_append_of_le_length (by omega), List.drop_of_length_le (by omega),
        List.nil_append]
    · simp only [List.length_append, htake, List.length_drop]
      simp only [capacity] at hfit
      omega
  · cases hwrite

end MetaBuffer

end McuProxy.Net
