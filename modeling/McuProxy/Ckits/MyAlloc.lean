/-
# The pool allocator

The pool of `myAlloc.c` on a 32-bit ABI. The control structure `pool_alloc_t` lies
outside the chunk and holds, in twenty bytes, `reserved`, the head `freeSlots` of
the free list, `chunkMem` and `chunkSize`. Blocks start with their size; links are
pointers. Words are unsigned and wrap, and the `int` of `ALIGN_8BYTES` is taken to
wrap as well.

A search that finds nothing leaves the loop variable at the structure that would
contain the head, which is the `pool_alloc_t` itself: its `size` is `reserved`.

A loop over `freeSlots` that does not come to its end makes the call undefined.
-/

import McuProxy.Memory.Ring

namespace McuProxy.Ckits.Pool

open McuProxy.Memory

/-- `ALIGN_8BYTES`. -/
def align8Bytes (x : Nat) : Nat := ((x + 7) % wordModulus) &&& 0xFFFFFFF8

/-- `POOLSIZE_TO_EFFTSIZE`. -/
def poolsizeToEfftsize (x : Nat) : Nat := subWord x 4

/-- `EFFTSIZE_TO_POOLSIZE`. -/
def efftsizeToPoolsize (x : Nat) : Nat := (x + 4) % wordModulus

/-- `sizeof(pool_alloc_t)`; `reserved` is at its start. -/
def sizeofPoolAlloc : Nat := 20

/-- `sizeof(free_pool_t)`; `size` is at its start, `list` at 4. -/
def sizeofFreePool : Nat := 12

/-- Addresses of the members of `pool_alloc_t`. -/
def freeSlotsAt (allocator : Nat) : Nat := allocator + 4

def chunkMemAt (allocator : Nat) : Nat := allocator + 12

def chunkSizeAt (allocator : Nat) : Nat := allocator + 16

/-- `INIT_LIST_HEAD`. -/
def initListHead (mem : Mem) (head : Nat) : Mem := store32 (store32 mem head head) (head + 4) head

/-- `init_pool_allocator`; 0 is success. -/
def initPoolAllocator (mem : Mem) (allocator : Nat) : Int × Mem :=
  let chunkMem := load32 mem (chunkMemAt allocator)
  let chunkSize := load32 mem (chunkSizeAt allocator)
  if allocator = 0 ∨ chunkMem = 0 ∨ chunkSize ≤ efftsizeToPoolsize 0 then (-1, mem)
  else
    let memStart := align8Bytes chunkMem
    let chunkEnd := addrPlus chunkMem chunkSize
    if memStart ≥ chunkEnd then (-1, mem)
    else
      let mem := initListHead mem (freeSlotsAt allocator)
      let mem := store32 mem memStart (poolsizeToEfftsize chunkSize)
      (0, listAddTail mem 0 (memStart + 4) (freeSlotsAt allocator))

/-- The search for the first node of `size` bytes or more. The result is the list
object at which it stops, the head if there is no such node. -/
def findSlot (mem : Mem) (allocator size : Nat) : Option Nat :=
  (listForEach (fun _ => mem) 0 (freeSlotsAt allocator)
    (fun obj _ => if load32 mem (obj - 4) ≥ size then .brk () else .cont ()) ()).map Prod.fst

/-- The test with which the calls refuse an allocator. -/
def badAllocator (mem : Mem) (allocator : Nat) : Bool :=
  allocator = 0 || load32 mem (chunkMemAt allocator) = 0 || load32 mem (chunkSizeAt allocator) = 0

/-- `pool_malloc`; 0 is the null pointer. -/
def poolMalloc (mem : Mem) (allocator size : Nat) : Option (Nat × Mem) :=
  if badAllocator mem allocator || size = 0 then some (0, mem)
  else
    (findSlot mem allocator size).bind fun obj =>
      let node := obj - 4
      if load32 mem node ≥ size then
        let mem := listDel mem 0 obj
        let unit := addrPlus node 4
        if load32 mem node > (align8Bytes size + sizeofFreePool) % wordModulus then
          let cur := addrPlus unit (align8Bytes size)
          let mem' := store32 mem cur
            (poolsizeToEfftsize (subWord (load32 mem node) (align8Bytes size)))
          let mem' := store32 mem' node (align8Bytes size)
          (findSlot mem' allocator (load32 mem' cur)).map fun obj =>
            (unit, listAdd mem' 0 (cur + 4) obj)
        else some (unit, mem)
      else some (0, mem)

/-- The variables that the inner loop of `pool_free` changes: memory, `cur`,
`defragFlag`. -/
structure CombineState where
  mem : Mem
  cur : Nat
  defragFlag : Bool

/-- The body of that loop, at the list object `obj` of `node`. -/
def combineBody (obj : Nat) (state : CombineState) : Flow CombineState :=
  let node := obj - 4
  if addrPlus node (efftsizeToPoolsize (load32 state.mem node)) = state.cur then
    .brk
      { mem := store32 state.mem node
          (load32 state.mem node + efftsizeToPoolsize (load32 state.mem state.cur))
        cur := node
        defragFlag := true }
  else if addrPlus state.cur (efftsizeToPoolsize (load32 state.mem state.cur)) = node then
    .brk
      { state with
        mem := store32 state.mem state.cur
          (load32 state.mem state.cur + efftsizeToPoolsize (load32 state.mem node))
        defragFlag := true }
  else .cont state

/-- The `while (1)` of `pool_free`, which combines `cur` with its neighbours. Each
turn takes a unit of fuel; the result is memory and `cur`. -/
def combine (allocator : Nat) : Nat → Mem → Nat → Option (Mem × Nat)
  | 0, _, _ => none
  | fuel + 1, mem, cur =>
      (listForEach CombineState.mem 0 (freeSlotsAt allocator) combineBody ⟨mem, cur, false⟩).bind
        fun (obj, state) =>
          if state.defragFlag then combine allocator fuel (listDel state.mem 0 obj) state.cur
          else some (state.mem, state.cur)

/-- `pool_free`. -/
def poolFree (mem : Mem) (allocator unit : Nat) : Option Mem :=
  let chunkMem := load32 mem (chunkMemAt allocator)
  let chunkSize := load32 mem (chunkSizeAt allocator)
  if badAllocator mem allocator || unit = 0 then some mem
  else if unit ≥ addrPlus chunkMem chunkSize ∨ unit < chunkMem then some mem
  else
    let cur := unit - 4
    if load32 mem cur > chunkSize then some mem
    else
      (combine allocator loopFuel mem cur).bind fun (mem, cur) =>
        (findSlot mem allocator (load32 mem cur)).map fun obj => listAdd mem 0 (cur + 4) obj

/-- `pool_strdup` of a string given without its terminator. -/
def poolStrdup (mem : Mem) (allocator : Nat) (s : List UInt8) : Option (Nat × Mem) :=
  (poolMalloc mem allocator (s.length + 1)).map fun (unit, mem) =>
    if unit = 0 then (0, mem) else (unit, writeBytes mem unit (s ++ [0]))

/-- The nodes on `freeSlots`, as list objects in the order of the list. -/
def freeSlots (mem : Mem) (allocator : Nat) : List Nat := listObjects mem 0 (freeSlotsAt allocator)

end McuProxy.Ckits.Pool
