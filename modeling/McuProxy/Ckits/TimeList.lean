/-
# The delta queue of timed events

`timeList.c` keeps its pending events in a circular list whose head is an event
node of its own. A node stores only how much later it is due than its
predecessor, relative to the moment of the last synchronisation. The nodes of
the circle are modelled as a list, the head by its own `tvRemain`; every
function that reads the clock takes the reading as an argument.
-/

import McuProxy.Time.Timeval

namespace McuProxy.Ckits

open McuProxy.Time McuProxy.Time.Timeval

/-- `alarmEventNode`. A callback is an address, and 0 is null. -/
structure AlarmEventNode where
  tvRemain : Timeval
  cbTimeout : Nat
  idToken : Nat
  deriving DecidableEq, Repr

/-- `timeListType`: the head's `tvRemain`, the nodes after the head, the next
token and the moment of the last synchronisation. -/
structure TimeListType where
  headRemain : Timeval
  nodes : List AlarmEventNode
  listToken : Nat
  tvLastSync : Timeval
  deriving DecidableEq, Repr

/-- `initTimeList`. -/
def initTimeList (timeNow : Timeval) : TimeListType := ⟨infinity, [], 1, timeNow⟩

/-- The loop of `synchronize`. -/
def synchronizeNodes (timeSinceLastSync : Timeval) : List AlarmEventNode → List AlarmEventNode
  | [] => []
  | cur :: rest =>
      if timeOverthan timeSinceLastSync cur.tvRemain then
        { cur with tvRemain := zero } ::
          synchronizeNodes (timeInterval timeSinceLastSync cur.tvRemain) rest
      else { cur with tvRemain := timeInterval cur.tvRemain timeSinceLastSync } :: rest

def synchronize (lst : TimeListType) (timeNow : Timeval) : TimeListType :=
  { lst with
    nodes := synchronizeNodes (timeInterval timeNow lst.tvLastSync) lst.nodes
    tvLastSync := timeNow }

/-- The loop of `addAlarmEventNode`: the new node goes before the node the loop
stopped at, which is the head when the loop ran out. -/
def addNodes (newEntry : AlarmEventNode) : List AlarmEventNode → List AlarmEventNode
  | [] => [newEntry]
  | cur :: rest =>
      if timeOverthan newEntry.tvRemain cur.tvRemain then
        cur :: addNodes { newEntry with
          tvRemain := timeInterval newEntry.tvRemain cur.tvRemain } rest
      else newEntry :: { cur with tvRemain := timeInterval cur.tvRemain newEntry.tvRemain } :: rest

/-- `addAlarmEventNode` returns the token given to the node. -/
def addAlarmEventNode (lst : TimeListType) (timeNow : Timeval) (newEntry : AlarmEventNode) :
    Nat × TimeListType :=
  let lst := synchronize lst timeNow
  (lst.listToken, { lst with
    nodes := addNodes { newEntry with idToken := lst.listToken } lst.nodes
    listToken := (lst.listToken + 1) &&& 0x0FFFFFFF })

/-- `eventHead.list.next`, as far as its time goes: the first node or the head. -/
def firstRemain (lst : TimeListType) : Timeval :=
  match lst.nodes with
  | [] => lst.headRemain
  | cur :: _ => cur.tvRemain

/-- `timeToNextAlarmEvent`. -/
def timeToNextAlarmEvent (lst : TimeListType) (timeNow : Timeval) : Timeval × TimeListType :=
  let lst := synchronize lst timeNow
  (firstRemain lst, lst)

/-- `handleAlarmEvent` up to the callback, with the node it unlinked. The head of an
empty list is not unlinked: its own time starts at `infinity` and only grows, so
it is never due. -/
def handleAlarmEvent (lst : TimeListType) (timeNow : Timeval) :
    Option AlarmEventNode × TimeListType :=
  let lst := if (firstRemain lst).tvSec ≠ 0 ∨ (firstRemain lst).tvUsec ≠ 0
    then synchronize lst timeNow else lst
  if (firstRemain lst).tvSec = 0 ∧ (firstRemain lst).tvUsec < 1000 / 2 then
    match lst.nodes with
    | [] => (none, lst)
    | cur :: rest => (some cur, { lst with nodes := rest })
  else (none, lst)

/-- `queryAlarmEventNode`. -/
def queryAlarmEventNode (lst : TimeListType) (token : Nat) : Option AlarmEventNode :=
  lst.nodes.find? fun cur => token = cur.idToken

/-- What `delAlarmEventNode` adds to the node after the one it unlinks. -/
def carryOver (next entry : Timeval) : Timeval :=
  let sum : Timeval := ⟨next.tvSec + entry.tvSec, next.tvUsec + entry.tvUsec⟩
  if sum.tvUsec ≥ million then ⟨sum.tvSec + 1, sum.tvUsec - million⟩ else sum

/-- The unlinking of the first node with the token. The node after the last one
is the head. -/
def unlinkNode (token : Nat) (headRemain : Timeval) :
    List AlarmEventNode → Timeval × List AlarmEventNode
  | [] => (headRemain, [])
  | [entry] =>
      if token = entry.idToken then (carryOver headRemain entry.tvRemain, [])
      else (headRemain, [entry])
  | entry :: next :: rest =>
      if token = entry.idToken then
        (headRemain, { next with tvRemain := carryOver next.tvRemain entry.tvRemain } :: rest)
      else
        let unlinked := unlinkNode token headRemain (next :: rest)
        (unlinked.1, entry :: unlinked.2)

/-- `delAlarmEventNode` returns the node, or null when there is none. A node of
the list has a successor, so the second test of the source never fails. -/
def delAlarmEventNode (lst : TimeListType) (timeNow : Timeval) (token : Nat) :
    Option AlarmEventNode × TimeListType :=
  let lst := synchronize lst timeNow
  match queryAlarmEventNode lst token with
  | none => (none, lst)
  | some entry =>
      let unlinked := unlinkNode token lst.headRemain lst.nodes
      (some entry, { lst with headRemain := unlinked.1, nodes := unlinked.2 })

/-- `dumpTimeList` returns the number of entries it prints. -/
def dumpTimeList (lst : TimeListType) (timeNow : Timeval) : Nat × TimeListType :=
  let lst := synchronize lst timeNow
  (lst.nodes.length, lst)

end McuProxy.Ckits
