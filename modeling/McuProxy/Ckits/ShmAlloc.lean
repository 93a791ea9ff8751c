/-
# The shared-memory allocator

`shmAlloc.c` on a 32-bit ABI. All state is in the chunk itself: a header of
twenty bytes (`freeParts.next`, `freeParts.prev`, `candiate`, `magicFlag`,
`chunkSize`), then blocks that start with their size. Links and the candidate
are offsets from the header. Words are unsigned and wrap; the `int` of
`ALIGN_4BYTES` is taken to wrap as well.

A loop over `freeParts` that does not come to its end makes the call undefined.
-/

import McuProxy.Memory.Ring

namespace McuProxy.Ckits

open McuProxy.Memory

/-- `ALIGN_4BYTES`. -/
def align4Bytes (x : Nat) : Nat := ((x + 3) % wordModulus) &&& 0xFFFFFFFC

/-- `POOLSIZE_TO_EFFTSIZE`. -/
def poolsizeToEfftsize (x : Nat) : Nat := subWord x 4

/-- `EFFTSIZE_TO_POOLSIZE`. -/
def efftsizeToPoolsize (x : Nat) : Nat := (x + 4) % wordModulus

def constMagicFlag : Nat := 0xAA55AA55

/-- `sizeof(shm_alloc_t)`; `freeParts` is at its start. -/
def sizeofShmAlloc : Nat := 20

/-- `sizeof(free_shm_pool_t)`; `size` is at its start, `list` at 4. -/
def sizeofFreeShmPool : Nat := 12

/-- Addresses of the other members of `shm_alloc_t`. -/
def candiateAt (info : Nat) : Nat := info + 8

def magicFlagAt (info : Nat) : Nat := info + 12

def chunkSizeAt (info : Nat) : Nat := info + 16

/-- `init_shm_allocator`; 0 is the null handle. A chunk that carries the magic
word already is attached to and left as it is. -/
def initShmAllocator (mem : Mem) (memStart chunkSize : Nat) : Nat × Mem :=
  if memStart = 0 ∨ chunkSize ≤ efftsizeToPoolsize 0 + sizeofShmAlloc then (0, mem)
  else
    let chunkEnd := addrPlus memStart chunkSize
    let memStart := align4Bytes memStart
    let node := addrPlus memStart sizeofShmAlloc
    if node ≥ chunkEnd then (0, mem)
    else if load32 mem (magicFlagAt memStart) = constMagicFlag then (memStart, mem)
    else
      let mem := store32 mem (chunkSizeAt memStart) (chunkEnd - node)
      let mem := store32 mem (memStart + 4) (offsetPointer memStart memStart)
      let mem := store32 mem memStart (offsetPointer memStart memStart)
      let mem := store32 mem node (poolsizeToEfftsize (chunkEnd - node))
      let mem := store32 mem (candiateAt memStart) (offsetPointer node memStart)
      (memStart, store32 mem (magicFlagAt memStart) constMagicFlag)

/-- The variables of `shm_recycle` that its loop changes: memory, `cur`, `in`. -/
structure RecycleState where
  mem : Mem
  cur : Nat
  isIn : Bool

/-- The body of the loop of `shm_recycle`, at the list object `obj` of `node`. A
block that reaches beyond `cur` is only reported. -/
def recycleBody (obj : Nat) (state : RecycleState) : Flow RecycleState :=
  let node := obj - 4
  if node > state.cur then .brk state
  else
    let chunkEnd := addrPlus node (efftsizeToPoolsize (load32 state.mem node))
    if chunkEnd = state.cur then
      .cont
        { mem := store32 state.mem node
            (load32 state.mem node + efftsizeToPoolsize (load32 state.mem state.cur))
          cur := node
          isIn := true }
    else .cont state

/-- `shm_recycle`, whose result no caller uses. -/
def shmRecycle (mem : Mem) (allocator cur : Nat) : Option Mem :=
  if cur = 0 then some mem
  else
    (listForEach RecycleState.mem allocator allocator recycleBody ⟨mem, cur, false⟩).map
      fun (obj, state) =>
        let mem := if state.isIn then state.mem
          else listAddTail state.mem allocator (state.cur + 4) obj
        let node := obj - 4
        if obj ≠ allocator then
          if addrPlus state.cur (efftsizeToPoolsize (load32 mem state.cur)) = node then
            listDel (store32 mem state.cur
              (load32 mem state.cur + efftsizeToPoolsize (load32 mem node))) allocator obj
          else mem
        else mem

/-- The body of the loop of `shm_harvest`, which keeps `maxSize` and `cur`. -/
def harvestBody (mem : Mem) (obj : Nat) (state : Nat × Nat) : Flow (Nat × Nat) :=
  let node := obj - 4
  if load32 mem node > state.1 then .cont (load32 mem node, node) else .cont state

/-- `shm_harvest`. -/
def shmHarvest (mem : Mem) (allocator : Nat) : Option Mem :=
  (listForEach (fun _ => mem) allocator allocator (harvestBody mem) (0, 0)).map
    fun (_, (maxSize, cur)) =>
      if maxSize ≠ 0 ∧ cur ≠ 0 then
        store32 (listDel mem allocator (cur + 4)) (candiateAt allocator)
          (offsetPointer cur allocator)
      else store32 mem (candiateAt allocator) 0

/-- The loop of `shm_malloc`, which goes round once for each unit of `health`
after its first turn. -/
def shmMallocLoop (info size : Nat) : Nat → Mem → Option (Nat × Mem)
  | health, mem =>
      if load32 mem (candiateAt info) = 0 then some (0, mem)
      else
        let node := offsetNode info (load32 mem (candiateAt info))
        if load32 mem node ≥ size then
          let unit := addrPlus node 4
          if load32 mem node > (align4Bytes size + sizeofFreeShmPool) % wordModulus then
            let cur := addrPlus unit (align4Bytes size)
            let mem' := store32 mem cur
              (poolsizeToEfftsize (subWord (load32 mem node) (align4Bytes size)))
            let mem' := store32 mem' node (align4Bytes size)
            some (unit, store32 mem' (candiateAt info) (offsetPointer cur info))
          else some (unit, store32 mem (candiateAt info) 0)
        else
          match health with
          | 0 => some (0, mem)
          | health + 1 =>
              (shmRecycle (store32 mem (candiateAt info) 0) info node).bind fun mem =>
                (shmHarvest mem info).bind fun mem => shmMallocLoop info size health mem

/-- The test with which the calls refuse a handle. -/
def badHandle (mem : Mem) (info : Nat) : Bool :=
  info = 0 || load32 mem (chunkSizeAt info) = 0 || load32 mem (magicFlagAt info) ≠ constMagicFlag

/-- `shm_malloc`; 0 is the null pointer. -/
def shmMalloc (mem : Mem) (info size : Nat) : Option (Nat × Mem) :=
  if badHandle mem info || size = 0 then some (0, mem)
  else if load32 mem (candiateAt info) = 0 then
    (shmHarvest mem info).bind fun mem => shmMallocLoop info size 0 mem
  else shmMallocLoop info size 1 mem

/-- The tests of `shm_add_reference` and `shm_free` on a pointer. -/
def badPointer (mem : Mem) (info unit : Nat) : Bool :=
  badHandle mem info || unit = 0 ||
    unit ≥ addrPlus (addrPlus info sizeofShmAlloc) (load32 mem (chunkSizeAt info)) ||
    unit < info || (load32 mem (unit - 4) &&& 0xFFFFFFFC) > load32 mem (chunkSizeAt info)

/-- `shm_add_reference`. -/
def shmAddReference (mem : Mem) (info unit : Nat) : Int × Mem :=
  if badPointer mem info unit then (-1, mem)
  else
    let cur := unit - 4
    if ((load32 mem cur &&& 0xFFFFFFFC) + 3) % wordModulus ≤ load32 mem cur then (-1, mem)
    else (0, store32 mem cur (load32 mem cur + 1))

/-- `shm_free`. -/
def shmFree (mem : Mem) (info unit : Nat) : Option Mem :=
  if badPointer mem info unit then some mem
  else
    let cur := unit - 4
    if load32 mem cur &&& 3 ≠ 0 then some (store32 mem cur (load32 mem cur - 1))
    else shmRecycle mem info cur

/-- `shm_strdup` of a string given without its terminator. -/
def shmStrdup (mem : Mem) (info : Nat) (s : List UInt8) : Option (Nat × Mem) :=
  if s.length = 0 then some (0, mem)
  else
    (shmMalloc mem info (s.length + 1)).map fun (unit, mem) =>
      if unit = 0 then (0, mem) else (unit, writeBytes mem unit (s ++ [0]))

end McuProxy.Ckits
