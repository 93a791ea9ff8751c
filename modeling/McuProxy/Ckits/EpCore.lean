/-
# Timed calls of the event core

`epCore.c` schedules calls with nodes of a static array. A node is taken from the
slot allocator by `epCallLater`, waits in the delta queue, and goes back to the
allocator when the call is cancelled or when its handler has returned. The
handler may schedule and cancel calls itself, and while it runs its own node is
in neither list.

The nodes are modelled by their addresses: the queue is the circle of addresses
behind the head, the contents of a node are found under its address, and the
links of the free nodes are in the memory of the allocator. The core keeps a
history of what has happened to each call, which the program does not have.
-/

import McuProxy.Ckits.SlotAlloc
import McuProxy.Ckits.TimeList

namespace McuProxy.Ckits

open McuProxy.Memory McuProxy.Time McuProxy.Time.Timeval

/-- `alarmEventNode` with the members that only its owner reads. -/
structure EventNode extends AlarmEventNode where
  cbParam : Nat
  reserved : Nat
  deriving DecidableEq

def concretLimit : Nat := 20

/-- `sizeof(alarmEventNode)`. -/
def sizeofAlarmEventNode : Nat := 32

/-- Where the static objects of `epCore.c` are. -/
structure EpLayout where
  epTimeEventAlloc : Nat
  theEventNodes : Nat
  epTimeOutHandler : Nat
  laid : Slot.Laid epTimeEventAlloc sizeofAlarmEventNode (2 * concretLimit) theEventNodes
  handler_pos : 0 < epTimeOutHandler

/-- What happens to a call, which is known by its token. -/
inductive EpEvent
  | issued (token node handler param : Nat)
  | ran (token handler param : Nat)
  | cancelled (token : Nat)
  | recycled (token node : Nat)
  deriving DecidableEq

/-- The wait queue of `epCoreStruct` with its nodes and their allocator. -/
structure EpCore where
  mem : Mem
  nodes : Nat → EventNode
  queue : List Nat
  headRemain : Timeval
  listToken : Nat
  tvLastSync : Timeval
  firing : Option Nat
  history : List EpEvent

namespace EpCore

/-- Set the remaining time of a node. -/
def retime (nodes : Nat → EventNode) (node : Nat) (tvRemain : Timeval) : Nat → EventNode :=
  Function.update nodes node { nodes node with tvRemain := tvRemain }

/-- The loop of `synchronize`. -/
def synchronizeQueue (timeSinceLastSync : Timeval) :
    List Nat → (Nat → EventNode) → Nat → EventNode
  | [], nodes => nodes
  | cur :: rest, nodes =>
      if timeOverthan timeSinceLastSync (nodes cur).tvRemain then
        synchronizeQueue (timeInterval timeSinceLastSync (nodes cur).tvRemain) rest
          (retime nodes cur zero)
      else retime nodes cur (timeInterval (nodes cur).tvRemain timeSinceLastSync)

def synchronize (core : EpCore) (timeNow : Timeval) : EpCore :=
  { core with
    nodes := synchronizeQueue (timeInterval timeNow core.tvLastSync) core.queue core.nodes
    tvLastSync := timeNow }

/-- The loop of `addAlarmEventNode`, with the new node linked before the node the
loop stopped at. -/
def addQueue (newEntry : Nat) : List Nat → (Nat → EventNode) → List Nat × (Nat → EventNode)
  | [], nodes => ([newEntry], nodes)
  | cur :: rest, nodes =>
      if timeOverthan (nodes newEntry).tvRemain (nodes cur).tvRemain then
        let added := addQueue newEntry rest
          (retime nodes newEntry (timeInterval (nodes newEntry).tvRemain (nodes cur).tvRemain))
        (cur :: added.1, added.2)
      else
        (newEntry :: cur :: rest,
          retime nodes cur (timeInterval (nodes cur).tvRemain (nodes newEntry).tvRemain))

/-- `addAlarmEventNode`. -/
def addAlarmEventNode (core : EpCore) (timeNow : Timeval) (newEntry : Nat) : Nat × EpCore :=
  let core := core.synchronize timeNow
  let added := addQueue newEntry core.queue core.nodes
  (core.listToken, { core with
    queue := added.1
    nodes := Function.update added.2 newEntry
      { added.2 newEntry with idToken := core.listToken }
    listToken := (core.listToken + 1) &&& 0x0FFFFFFF })

/-- The remaining time of `eventHead.list.next`, which is the head when there is no
node. -/
def firstRemain (core : EpCore) : Timeval :=
  match core.queue with
  | [] => core.headRemain
  | cur :: _ => (core.nodes cur).tvRemain

/-- `timeToNextAlarmEvent`. -/
def timeToNextAlarmEvent (core : EpCore) (timeNow : Timeval) : Timeval × EpCore :=
  let core := core.synchronize timeNow
  (core.firstRemain, core)

/-- `queryAlarmEventNode`. -/
def queryAlarmEventNode (core : EpCore) (token : Nat) : Option Nat :=
  core.queue.find? fun cur => token = (core.nodes cur).idToken

/-- The node after `entry`; `none` is the head. -/
def successor (entry : Nat) : List Nat → Option Nat
  | [] => none
  | cur :: rest => if cur = entry then rest.head? else successor entry rest

/-- `delAlarmEventNode`. The time of the node goes to the one after it. -/
def delAlarmEventNode (core : EpCore) (timeNow : Timeval) (token : Nat) : Option Nat × EpCore :=
  let core := core.synchronize timeNow
  match core.queryAlarmEventNode token with
  | none => (none, core)
  | some entry =>
      let tvRemain := (core.nodes entry).tvRemain
      let core := match successor entry core.queue with
        | none => { core with headRemain := carryOver core.headRemain tvRemain }
        | some next => { core with
            nodes := retime core.nodes next (carryOver (core.nodes next).tvRemain tvRemain) }
      (some entry, { core with queue := core.queue.erase entry })

variable (layout : EpLayout)

/-- `epFactoryRecyleTimeEvent`. -/
def epFactoryRecyleTimeEvent (core : EpCore) (thisEvent : Nat) : Int × EpCore :=
  (0, { core with
    mem := Slot.slotFree core.mem layout.epTimeEventAlloc thisEvent
    history := core.history ++ [.recycled (core.nodes thisEvent).idToken thisEvent] })

/-- `epCallLater`. A null handler is 0, and so is the null pointer of the
allocator. -/
def epCallLater (core : EpCore) (timeNow : Timeval) (seconds useconds : Int)
    (handler param : Nat) : Int × EpCore :=
  if handler = 0 then (-1, core)
  else
    let (newAlarmNode, mem) :=
      Slot.slotMalloc core.mem layout.epTimeEventAlloc sizeofAlarmEventNode
    if newAlarmNode = 0 then (-1, { core with mem := mem })
    else
      let node := { core.nodes newAlarmNode with
        tvRemain := ⟨seconds, useconds⟩
        cbTimeout := layout.epTimeOutHandler
        cbParam := param
        reserved := handler }
      let (token, core) := addAlarmEventNode
        { core with mem := mem, nodes := Function.update core.nodes newAlarmNode node }
        timeNow newAlarmNode
      (token, { core with
        history := core.history ++ [.issued token newAlarmNode handler param] })

/-- `epCancelCall`. The token is converted to `unsigned int`. -/
def epCancelCall (core : EpCore) (timeNow : Timeval) (token : Int) : Int × EpCore :=
  match core.delAlarmEventNode timeNow (token % 4294967296).toNat with
  | (some theEvent, core) => core.epFactoryRecyleTimeEvent layout theEvent
  | (none, core) => (-1, core)

/-- `handleAlarmEvent` up to the call of the handler, which is then running. The
callback of a node is `epTimeOutHandler`. Unlinking the head of an empty list
would leave it without links, and is undefined here. -/
def handleAlarmEvent (core : EpCore) (timeNow : Timeval) : Option EpCore :=
  let core := if core.firstRemain.tvSec ≠ 0 ∨ core.firstRemain.tvUsec ≠ 0
    then core.synchronize timeNow else core
  if core.firstRemain.tvSec = 0 ∧ core.firstRemain.tvUsec < 1000 / 2 then
    match core.queue with
    | [] => none
    | cur :: rest =>
        let core := { core with queue := rest }
        let node := core.nodes cur
        if node.cbTimeout ≠ 0 then
          some { core with
            firing := some cur
            history := core.history ++ [.ran node.idToken node.reserved node.cbParam] }
        else some core
  else some core

/-- `epTimeOutHandler` after its handler has returned. -/
def handlerReturned (core : EpCore) (theEvent : Nat) : EpCore :=
  { (core.epFactoryRecyleTimeEvent layout theEvent).2 with firing := none }

/-- What the users of the core do. The first three are also done by a handler
while it runs; the end of a handler is a step of its own. -/
inductive EpCall
  | callLater (timeNow : Timeval) (seconds useconds : Int) (handler param : Nat)
  | cancelCall (timeNow : Timeval) (token : Int)
  | timeToNext (timeNow : Timeval)
  | alarm (timeNow : Timeval)
  | handlerReturn

/-- One step. A cancellation that returns 0 is noted. -/
def epStep (core : EpCore) : EpCall → Option EpCore
  | .callLater timeNow seconds useconds handler param =>
      some (core.epCallLater layout timeNow seconds useconds handler param).2
  | .cancelCall timeNow token =>
      let (ret, core) := core.epCancelCall layout timeNow token
      some (if ret = 0 then
        { core with history := core.history ++ [.cancelled (token % 4294967296).toNat] } else core)
  | .timeToNext timeNow => some (core.timeToNextAlarmEvent timeNow).2
  | .alarm timeNow =>
      match core.firing with
      | none => core.handleAlarmEvent timeNow
      | some _ => none
  | .handlerReturn =>
      match core.firing with
      | none => none
      | some theEvent => some (core.handlerReturned layout theEvent)

/-- The core after `initTimeList` and `init_slot_allocator`. -/
def initialised (mem : Mem) (nodes : Nat → EventNode) (timeNow : Timeval) : EpCore where
  mem := (Slot.initSlotAllocator mem layout.epTimeEventAlloc).2
  nodes := nodes
  queue := []
  headRemain := infinity
  listToken := 1
  tvLastSync := timeNow
  firing := none
  history := []

end EpCore

end McuProxy.Ckits
