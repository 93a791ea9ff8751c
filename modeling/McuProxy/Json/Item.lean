/-
# JSON items

`cJSON.c` keeps a JSON value as a tree of items. The children of an array or of an
object form a chain, linked by `next`; an item that is a member of an object has its
name in `string`. The model has the same shape: an item is a node with a first child
and a next sibling, or `NULL`. The links to the previous item are not needed here.

Items and strings are allocated one by one. `blocks` are the blocks that an item and
the items after it own, and `delete` gives back exactly these. What a reference points
to belongs to another item.
-/

import McuProxy.Math.Allocating
import McuProxy.Math.Doubles

namespace McuProxy.Json

open McuProxy.Math

/-- An allocated string, without the null character at its end. -/
structure Str where
  addr : Nat
  chars : List UInt8
  deriving DecidableEq, Repr

def typeFalse : Nat := 0
def typeTrue : Nat := 1
def typeNull : Nat := 2
def typeNumber : Nat := 3
def typeString : Nat := 4
def typeArray : Nat := 5
def typeObject : Nat := 6

/-- The flag `cJSON_IsReference`. -/
def flagReference : Nat := 256

/-- The fields of a `cJSON` that are not links. -/
structure Fields (D : Type) where
  type : Nat
  valuestring : Option Str
  valueint : Int32
  valuedouble : D
  string : Option Str
  deriving DecidableEq, Repr

/-- `cJSON`, with `NULL` for the end of a chain. -/
inductive Item (D : Type)
  | null
  | node (addr : Nat) (fields : Fields D) (child next : Item D)
  deriving DecidableEq, Repr

/-- The block of a string, if there is one. -/
def strBlocks : Option Str → Multiset Nat
  | none => 0
  | some str => {str.addr}

namespace Fields

variable {D : Type} (fields : Fields D)

/-- `type & cJSON_IsReference`. -/
def isReference : Bool := fields.type &&& flagReference != 0

/-- `type & 255`. -/
def kind : Nat := fields.type &&& 255

/-- The strings that an item with these fields owns. -/
def blocks : Multiset Nat :=
  (if fields.isReference then 0 else strBlocks fields.valuestring) + strBlocks fields.string

end Fields

namespace Item

variable {D : Type}

/-- The blocks that a chain of items owns. -/
def blocks : Item D → Multiset Nat
  | null => 0
  | node addr fields child next =>
      {addr} + (fields.blocks + ((if fields.isReference then 0 else child.blocks) + next.blocks))

end Item

open Allocating

/-- What `memset` leaves of an item. -/
def zeroFields {D : Type} [Doubles D] : Fields D :=
  { type := 0, valuestring := none, valueint := 0, valuedouble := Doubles.ofInt 0, string := none }

/-- `if (str) cJSON_free(str)`. -/
def freeStr : Option Str → Allocating Unit
  | none => pure ()
  | some str => free str.addr

/-- `cJSON_Delete`. The loop goes along `next`. -/
def delete {D : Type} : Item D → Allocating Unit
  | .null => pure ()
  | .node addr fields child next => do
      if !fields.isReference then delete child
      if !fields.isReference then freeStr fields.valuestring
      freeStr fields.string
      free addr
      delete next

variable {D : Type} {granted : Nat → Bool}

theorem freeStr_spec (str : Option Str) :
    Triple granted (freeStr str) (strBlocks str) fun _ owned => owned = 0 := by
  cases str with
  | none => exact Triple.pure rfl
  | some str => exact Triple.free

/-- Every block of a chain of items is given back once, and no other block is. -/
theorem delete_spec (item : Item D) :
    Triple granted (delete item) item.blocks fun _ owned => owned = 0 := by
  induction item with
  | null => exact Triple.pure rfl
  | node addr fields child next ihchild ihnext =>
      have hrest : Triple granted (do freeStr fields.string; free addr; delete next)
          (strBlocks fields.string + ({addr} + next.blocks)) fun _ owned => owned = 0 :=
        Triple.spend (freeStr_spec _) (Triple.spend Triple.free ihnext)
      by_cases hreference : fields.isReference
      · have hblocks : (Item.node addr fields child next).blocks =
            strBlocks fields.string + ({addr} + next.blocks) := by
          simp only [Item.blocks, Fields.blocks, hreference, if_true, zero_add]
          exact add_left_comm _ _ _
        rw [hblocks]
        simpa [delete, hreference] using hrest
      · have hblocks : (Item.node addr fields child next).blocks =
            child.blocks + (strBlocks fields.valuestring +
              (strBlocks fields.string + ({addr} + next.blocks))) := by
          rw [Item.blocks, Fields.blocks, if_neg hreference, if_neg hreference]
          abel
        rw [hblocks]
        simpa [delete, hreference] using Triple.spend ihchild (Triple.spend (freeStr_spec _) hrest)

end McuProxy.Json
