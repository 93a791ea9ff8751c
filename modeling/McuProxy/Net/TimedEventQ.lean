/-
# The queue of timed events

`TimedEventQ` keeps its events ordered by deadline. An alarm detaches the events
that are due in one critical section and then works through the detached batch
without the lock: it invokes each handler, and it re-arms periodic events by
inserting them again. The functions here are the critical sections of the
source, and the calls built from them as one thread executes them.

A unit of the queue is a heap object, and the queue holds pointers to it.
`uid` stands for the identity of the object and `stamp` for the insertion that
put it where it is; both are ghosts that no branch reads. Fields that the code
leaves uninitialised keep what the new object held before (`junk`).
-/

import McuProxy.Time.Timeval
import McuProxy.Math.StableInsert

namespace McuProxy.Net

open McuProxy.Math McuProxy.Time

/-- `TimedEventQ::EventType`. -/
inductive EventType
  | timedCallback
  | timedRecycle
  | periodCondition
  | periodSemaphore
  deriving DecidableEq, Repr

/-- The two types that an alarm re-arms. -/
def EventType.isPeriod : EventType → Bool
  | .periodCondition | .periodSemaphore => true
  | .timedCallback | .timedRecycle => false

/-- `TimedEventQ::EventUnit`. A handler is an address, and 0 is null. -/
structure EventUnit where
  tvAbsolute : Timeval
  type : EventType
  handler : Nat
  idToken : Nat
  period : Nat
  uid : Nat
  stamp : Nat
  deriving DecidableEq, Repr

/-- The queue, with the number of units created and of insertions made. -/
structure TimedEventQ where
  mList : List EventUnit
  listToken : Nat
  created : Nat
  inserted : Nat
  deriving DecidableEq, Repr

namespace TimedEventQ

/-- The constructor. -/
def init : TimedEventQ := ⟨[], 1, 0, 0⟩

/-- `addEventInternal`: before the first unit with a later deadline. -/
def addEventInternal (queue : TimedEventQ) (unit : EventUnit) : TimedEventQ :=
  { queue with
    mList := insertBefore (fun other => !timeOverthan unit.tvAbsolute other.tvAbsolute)
      { unit with stamp := queue.inserted } queue.mList
    inserted := queue.inserted + 1 }

/-- The successor of a token, modulo `2 ^ 28`. -/
def nextToken (token : Nat) : Nat := (token + 1) &&& 0x0FFFFFFF

/-- The second critical section of `addLaterEvent` and `addPeriodEvent`: the
unit already inserted is given its token. -/
def assignToken (queue : TimedEventQ) (uid : Nat) : TimedEventQ :=
  { queue with
    mList := queue.mList.map fun unit =>
      if unit.uid = uid then { unit with idToken := queue.listToken } else unit
    listToken := nextToken queue.listToken }

/-- What `addLaterEvent` and `addPeriodEvent` share up to the first critical
section: the test of the arguments, the deadline relative to the clock reading
`now`, and the insertion of a unit that has no token yet. -/
def insertRelative (accepts : EventType → Bool) (queue : TimedEventQ) (junk : EventUnit)
    (now : Timeval) (mseconds : Nat) (type : EventType) (handler : Nat) : Option TimedEventQ :=
  if handler = 0 ∨ mseconds > maxPeriodDelay ∨ accepts type = false then none
  else
    let newEntry : EventUnit := { junk with
      type := type, handler := handler, tvAbsolute := timePlus now mseconds
      uid := queue.created }
    some ({ queue with created := queue.created + 1 }.addEventInternal newEntry)

/-- The two calls as a whole. The returned token is -1 when the call is refused. -/
def addRelative (accepts : EventType → Bool) (queue : TimedEventQ) (junk : EventUnit)
    (now : Timeval) (mseconds : Nat) (type : EventType) (handler : Nat) : Int × TimedEventQ :=
  match insertRelative accepts queue junk now mseconds type handler with
  | none => (-1, queue)
  | some grown => (grown.listToken, grown.assignToken queue.created)

/-- The types `addLaterEvent` accepts. -/
def acceptsLater (type : EventType) : Bool := type = .timedCallback || type = .timedRecycle

/-- The types `addPeriodEvent` accepts. -/
def acceptsPeriod (type : EventType) : Bool := type = .periodCondition || type = .periodSemaphore

/-- `addLaterEvent`: one-shot types only. The period stays uninitialised. -/
def addLaterEvent (queue : TimedEventQ) (junk : EventUnit) (now : Timeval) (mseconds : Nat)
    (type : EventType) (handler : Nat) : Int × TimedEventQ :=
  addRelative acceptsLater queue junk now mseconds type handler

/-- `addPeriodEvent`: periodic types only, and the period is kept. -/
def addPeriodEvent (queue : TimedEventQ) (junk : EventUnit) (now : Timeval) (mseconds : Nat)
    (type : EventType) (handler : Nat) : Int × TimedEventQ :=
  addRelative acceptsPeriod queue { junk with period := mseconds } now mseconds type handler

/-- `addAbsTimedEvent`: the deadline is given, the type is not checked, and
token and insertion share one critical section. -/
def addAbsTimedEvent (queue : TimedEventQ) (junk : EventUnit) (absTime : Timeval)
    (type : EventType) (handler : Nat) : Int × TimedEventQ :=
  if handler = 0 then (-1, queue)
  else
    let newEntry : EventUnit := { junk with
      tvAbsolute := absTime, type := type, handler := handler, idToken := queue.listToken
      uid := queue.created }
    (queue.listToken, { queue with
      created := queue.created + 1, listToken := nextToken queue.listToken }.addEventInternal
        newEntry)

/-- `delTimedEvent`: the first unit with the token leaves the list. The returned
handler is read from the unit after its deletion and is not modelled. -/
def delTimedEvent (queue : TimedEventQ) (token : Nat) : TimedEventQ :=
  { queue with mList := queue.mList.eraseP fun unit => unit.idToken = token }

/-- The critical section of `handleAlarmEvent`: the leading units that are due
at `timeNow` are spliced into a private list. -/
def detach (queue : TimedEventQ) (timeNow : Timeval) : List EventUnit × TimedEventQ :=
  (queue.mList.takeWhile fun unit => timeOverthan timeNow unit.tvAbsolute,
    { queue with
      mList := queue.mList.dropWhile fun unit => timeOverthan timeNow unit.tvAbsolute })

/-- The re-arming of a fired periodic unit at the clock reading `now`. -/
def rearm (queue : TimedEventQ) (now : Timeval) (entry : EventUnit) : TimedEventQ :=
  queue.addEventInternal { entry with tvAbsolute := timePlus now entry.period }

/-- The three ways of adding an event, as calls. -/
inductive AddCall
  | later (junk : EventUnit) (now : Timeval) (mseconds : Nat) (type : EventType) (handler : Nat)
  | period (junk : EventUnit) (now : Timeval) (mseconds : Nat) (type : EventType) (handler : Nat)
  | absTimed (junk : EventUnit) (absTime : Timeval) (type : EventType) (handler : Nat)

def AddCall.run (queue : TimedEventQ) : AddCall → Int × TimedEventQ
  | .later junk now mseconds type handler => queue.addLaterEvent junk now mseconds type handler
  | .period junk now mseconds type handler => queue.addPeriodEvent junk now mseconds type handler
  | .absTimed junk absTime type handler => queue.addAbsTimedEvent junk absTime type handler

def runAdds (queue : TimedEventQ) (calls : List AddCall) : TimedEventQ :=
  calls.foldl (fun queue call => (call.run queue).2) queue

/-- What the environment does while one unit of the batch is processed: the
events its callback adds, and the clock reading if the unit is re-armed. -/
structure FireEnv where
  adds : List AddCall
  rearmAt : Timeval

/-- One turn of the loop over the batch. Only a callback runs code that can call
the queue: recycling frees memory, and the periodic types signal. -/
def processEntry (queue : TimedEventQ) (env : FireEnv) (entry : EventUnit) : TimedEventQ :=
  match entry.type with
  | .timedCallback => queue.runAdds env.adds
  | .timedRecycle => queue
  | .periodCondition => queue.rearm env.rearmAt entry
  | .periodSemaphore => queue.rearm env.rearmAt entry

/-- The loop over the batch, with the units it fired. -/
def processBatch (env : Nat → FireEnv) : Nat → List EventUnit → TimedEventQ →
    List EventUnit × TimedEventQ
  | _, [], queue => ([], queue)
  | turn, entry :: batch, queue =>
      let rest := processBatch env (turn + 1) batch (queue.processEntry (env turn) entry)
      (entry :: rest.1, rest.2)

/-- `handleAlarmEvent` at the clock reading `timeNow`: the units fired, in order,
and the queue left behind. -/
def handleAlarmEvent (queue : TimedEventQ) (timeNow : Timeval) (env : Nat → FireEnv) :
    List EventUnit × TimedEventQ :=
  let detached := queue.detach timeNow
  processBatch env 0 detached.1 detached.2

end TimedEventQ

end McuProxy.Net
