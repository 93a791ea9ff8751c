/-
# The socket holder

`SocketHolder` keeps the registered transports in a circular queue of
`socketItem`s, ordered by descriptor, whose storage comes from a slot allocator
over an array of `CONTAINER_LIMIT` items. On a 32-bit ABI an item has 24 bytes:
`reserved`, `prev`, `next`, `socket_fd`, `socket_inst` and `ref`. The first eight
of them are the links of the free list while the item is not in use.

The holder is given by the address of `mQueue`; `mAlloc` and `mArray` follow it.
A link of the queue points at the start of an item, four bytes before the pair of
links it belongs to, and the pair holds `prev` before `next`: seen from the pair,
the queue is a ring of links relative to base 4 that runs backwards.

What the calls do to the transports themselves is their business with `RefBase`:
the weak reference that `createWeak` returns is an argument of `insert`, the
outcome of `attemptIncStrong` and the descriptor found in the transport are
arguments of `fetch`, and the references given up by `decWeak` are results.
-/

import McuProxy.Ckits.SlotAlloc
import McuProxy.Math.LimitedMap
import McuProxy.Net.MetaBuffer

namespace McuProxy.Net.Holder

open McuProxy.Memory McuProxy.Ckits.Slot McuProxy.Math

/-- `CONTAINER_LIMIT`. -/
def containerLimit : Nat := 50

/-- `sizeof(socketItem)` and the members of an item. -/
def sizeofSocketItem : Nat := 24

def prevAt (item : Nat) : Nat := item + 4

def nextAt (item : Nat) : Nat := item + 8

def fdAt (item : Nat) : Nat := item + 12

def instAt (item : Nat) : Nat := item + 16

def refAt (item : Nat) : Nat := item + 20

/-- `&mAlloc` and `&mArray[0]`. -/
def allocAt (holder : Nat) : Nat := holder + 24

def arrayAt (holder : Nat) : Nat := holder + 44

/-- `socket_fd` of an item. -/
def fdOf (mem : Mem) (item : Nat) : Int32 := (UInt32.ofNat (load32 mem (fdAt item))).toInt32

/-- The transport an item is for, and the weak reference to it. -/
structure Entry where
  inst : UInt32
  ref : UInt32
  deriving DecidableEq

def entryOf (mem : Mem) (item : Nat) : Entry where
  inst := UInt32.ofNat (load32 mem (instAt item))
  ref := UInt32.ofNat (load32 mem (refAt item))

/-- The constructor. -/
def construct (mem : Mem) (holder : Nat) : Mem :=
  let mem := store32 mem (slotChunkMemAt (allocAt holder)) (arrayAt holder)
  let mem := store32 mem (slotChunkSizeAt (allocAt holder)) (containerLimit * sizeofSocketItem)
  let mem := store32 mem (allocAt holder) sizeofSocketItem
  let mem := (initSlotAllocator mem (allocAt holder)).2
  let mem := store32 mem (nextAt holder) holder
  store32 mem (prevAt holder) holder

/-- The loop with which every call looks for a descriptor. It stops at the first
item with that descriptor or a greater one, or at `mQueue`. -/
def scan (mem : Mem) (holder : Nat) (sock : Int32) : Nat → Nat → Option Nat
  | 0, _ => none
  | fuel + 1, cursor =>
      if cursor = holder then some cursor
      else if fdOf mem cursor > sock then some cursor
      else if fdOf mem cursor = sock then some cursor
      else scan mem holder sock fuel (load32 mem (nextAt cursor))

def search (mem : Mem) (holder : Nat) (sock : Int32) : Option Nat :=
  scan mem holder sock loopFuel (load32 mem (nextAt holder))

/-- Whether the search has stopped at an item with the descriptor. -/
def found (mem : Mem) (holder : Nat) (sock : Int32) (cursor : Nat) : Bool :=
  cursor ≠ holder && fdOf mem cursor = sock

/-- The first two statements of `removeItem`. -/
def unlinkItem (mem : Mem) (cursor : Nat) : Mem :=
  let mem := store32 mem (prevAt (load32 mem (nextAt cursor))) (load32 mem (prevAt cursor))
  store32 mem (nextAt (load32 mem (prevAt cursor))) (load32 mem (nextAt cursor))

/-- `removeItem`; the reference is given up between unlinking and freeing, which
does not change the memory of the holder. -/
def removeItem (mem : Mem) (holder cursor : Nat) : Mem :=
  slotFree (unlinkItem mem cursor) (allocAt holder) cursor

/-- The end of `insert`: link `unit` before `cursor`. -/
def linkBefore (mem : Mem) (unit cursor : Nat) : Mem :=
  let mem := store32 mem (nextAt unit) cursor
  let mem := store32 mem (prevAt unit) (load32 mem (prevAt cursor))
  let mem := store32 mem (nextAt (load32 mem (prevAt cursor))) unit
  store32 mem (prevAt cursor) unit

/-- The members that `insert` sets in a new item. -/
def fillItem (mem : Mem) (unit : Nat) (sock : Int32) (entry : Entry) : Mem :=
  let mem := store32 mem (nextAt unit) 0
  let mem := store32 mem (fdAt unit) sock.toUInt32.toNat
  let mem := store32 mem (instAt unit) entry.inst.toNat
  store32 mem (refAt unit) entry.ref.toNat

/-- What a call returns: its status, the transport that `fetch` stores, and the
weak references that were given up. -/
structure Outcome where
  status : Status
  inst : Option UInt32
  released : List UInt32
  deriving DecidableEq

/-- `insert` of a transport with the weak reference to it. -/
def insert (mem : Mem) (holder : Nat) (sock : Int32) (entry : Entry) : Option (Outcome × Mem) :=
  if entry.inst = 0 then some (⟨.unknownError, none, []⟩, mem)
  else
    let (unit, mem) := slotMalloc mem (allocAt holder) sizeofSocketItem
    if unit = 0 then some (⟨.unknownError, none, []⟩, mem)
    else
      let mem := fillItem mem unit sock entry
      (search mem holder sock).map fun cursor =>
        if found mem holder sock cursor then
          -- The item itself cannot be in the queue; the source says so as well.
          if unit ≠ cursor then
            let node := load32 mem (nextAt cursor)
            (⟨.noError, none, [(entryOf mem cursor).ref]⟩,
              linkBefore (removeItem mem holder cursor) unit node)
          else (⟨.unknownError, none, []⟩, mem)
        else (⟨.noError, none, []⟩, linkBefore mem unit cursor)

/-- What `fetch` learns about the transports: whether `attemptIncStrong` succeeds
on a reference, and `sock` of a transport. -/
structure Transports where
  attemptIncStrong : UInt32 → Bool
  sock : UInt32 → Int32

/-- Whether `fetch` hands out an entry. -/
def Transports.usable (transports : Transports) (sock : Int32) (entry : Entry) : Bool :=
  transports.attemptIncStrong entry.ref && transports.sock entry.inst = sock

def fetch (mem : Mem) (holder : Nat) (sock : Int32) (transports : Transports) :
    Option (Outcome × Mem) :=
  (search mem holder sock).map fun cursor =>
    if found mem holder sock cursor then
      let entry := entryOf mem cursor
      if transports.usable sock entry then (⟨.noError, some entry.inst, []⟩, mem)
      else (⟨.deadObject, none, [entry.ref]⟩, removeItem mem holder cursor)
    else (⟨.nameNotFound, none, []⟩, mem)

def remove (mem : Mem) (holder : Nat) (sock : Int32) : Option (Outcome × Mem) :=
  (search mem holder sock).map fun cursor =>
    if found mem holder sock cursor then
      (⟨.noError, none, [(entryOf mem cursor).ref]⟩, removeItem mem holder cursor)
    else (⟨.nameNotFound, none, []⟩, mem)

/-- A call of the holder. -/
inductive Call
  | insert (sock : Int32) (entry : Entry)
  | fetch (sock : Int32) (transports : Transports)
  | remove (sock : Int32)

def step (holder : Nat) (mem : Mem) : Call → Option (Outcome × Mem)
  | .insert sock entry => insert mem holder sock entry
  | .fetch sock transports => fetch mem holder sock transports
  | .remove sock => remove mem holder sock

/-- A sequence of calls and their outcomes. -/
def run (holder : Nat) : Mem → List Call → Option (List Outcome × Mem)
  | mem, [] => some ([], mem)
  | mem, call :: calls =>
      (step holder mem call).bind fun (outcome, mem) =>
        (run holder mem calls).map fun (outcomes, mem) => (outcome :: outcomes, mem)

section

universe u

variable {ε : Type u}

/-- The calls on a partial map from descriptors to entries of any type: the status,
the entry that was found, and the map. -/
def mapInsert (map : LimitedMap Int32 ε) (sock : Int32) (entry : ε) :
    Status × Option ε × LimitedMap Int32 ε :=
  if map.free = 0 then (.unknownError, none, map)
  else (.noError, map.lookup sock, map.insert sock entry)

def mapFetch (map : LimitedMap Int32 ε) (sock : Int32) (usable : ε → Bool) :
    Status × Option ε × LimitedMap Int32 ε :=
  match map.lookup sock with
  | none => (.nameNotFound, none, map)
  | some entry =>
      if usable entry then (.noError, some entry, map)
      else (.deadObject, some entry, map.erase sock)

def mapRemove (map : LimitedMap Int32 ε) (sock : Int32) : Status × Option ε × LimitedMap Int32 ε :=
  match map.lookup sock with
  | none => (.nameNotFound, none, map)
  | some entry => (.noError, some entry, map.erase sock)

end

/-- The same calls with the outcomes of the holder. -/
def mapStep (map : LimitedMap Int32 Entry) : Call → Outcome × LimitedMap Int32 Entry
  | .insert sock entry =>
      if entry.inst = 0 then (⟨.unknownError, none, []⟩, map)
      else
        let (status, old, map) := mapInsert map sock entry
        (⟨status, none, (old.map Entry.ref).toList⟩, map)
  | .fetch sock transports =>
      match mapFetch map sock (transports.usable sock) with
      | (.noError, entry, map) => (⟨.noError, entry.map Entry.inst, []⟩, map)
      | (status, entry, map) => (⟨status, none, (entry.map Entry.ref).toList⟩, map)
  | .remove sock =>
      let (status, entry, map) := mapRemove map sock
      (⟨status, none, (entry.map Entry.ref).toList⟩, map)

def mapRun : LimitedMap Int32 Entry → List Call → List Outcome × LimitedMap Int32 Entry
  | map, [] => ([], map)
  | map, call :: calls =>
      let (outcome, map) := mapStep map call
      let (outcomes, map) := mapRun map calls
      (outcome :: outcomes, map)

/-- The items in the queue, in its order. The ring is read backwards. -/
def queued (mem : Mem) (holder : Nat) : List Nat :=
  ((listObjects mem 4 (prevAt holder)).map fun obj => obj - 4).reverse

/-- The slots that are free. -/
def freeSlots (mem : Mem) (holder : Nat) : List Nat :=
  listObjects mem 0 (freeHead (allocAt holder))

/-- The map in a memory. -/
def view (mem : Mem) (holder : Nat) : LimitedMap Int32 Entry where
  lookup sock := ((queued mem holder).find? fun item => fdOf mem item = sock).map (entryOf mem)
  free := (freeSlots mem holder).length

end McuProxy.Net.Holder
