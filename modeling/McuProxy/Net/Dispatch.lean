/-
# The dispatch of a batch of events

`epoll_wait` returns a batch of events, each with the number of a descriptor and
nothing else. The poller first runs the timers that are due and then works the
batch off: it fetches the transport of each number from the holder and calls its
handlers. What the timers and the handlers do in between, or any other thread, is
any sequence of operations on the transports.

A number means the transport that was registered for it when the batch was made,
until an operation registers another one under it. A batch without such an
operation is dispatched to the transports that it was made for, and the events of
those that were closed are dropped.
-/

import McuProxy.Net.Descriptors

namespace McuProxy.Net.Dispatch

open McuProxy.Math Network

/-- `epoll_event`: `data.fd`, whether `EPOLLHUP` or `EPOLLERR` is set, `EPOLLIN`
and `EPOLLOUT`. -/
structure Event where
  sock : Int32
  hangup : Bool
  readable : Bool
  writable : Bool
  deriving DecidableEq

inductive Handler
  | handleRead
  | handleWrite
  | handleClose
  deriving DecidableEq

/-- A call of a handler: the object it was called on, the event it was called for
with the number that object had in `sock`, and the transport that was registered
for the number of the event when `epoll_wait` returned. -/
structure Invocation where
  handler : Handler
  transport : Nat
  event : Int32
  sock : Int32
  registered : Option Nat
  deriving DecidableEq

/-- The event whose transport is in `_trans`, which keeps it alive, and the handlers
that are still to be called for it. -/
structure Current where
  transport : Nat
  event : Int32
  sock : Int32
  handlers : List Handler

/-- `batch` are the events that are not worked off yet. -/
structure State where
  net : Network
  registered : Int32 → Option Nat
  batch : List Event
  current : Option Current
  invoked : List Invocation

def init : State := ⟨.init, fun _ => none, [], none, []⟩

inductive Step
  | wait (events : List Event)
  | act (op : Op)
  | take
  | call
  | finish

namespace State

/-- The handlers that the poller calls for an event. -/
def handlersOf (event : Event) : List Handler :=
  if event.hangup then [.handleClose]
  else
    (if event.readable then [.handleRead] else []) ++
      (if event.writable then [.handleWrite] else [])

/-- The next event up to its first handler. A fetch that fails leaves `_trans` as it
was. The branch for a passive close fetches the same transport again. -/
def take (state : State) (event : Event) (batch : List Event) : State :=
  let (err, taken, net) := state.net.fetch event.sock
  match err, taken with
  | .noError, some transport =>
      let sock := net.sockOf transport
      { state with
        net := if event.hangup then net.passiveClose event.sock else net
        batch := batch
        current := some ⟨transport, event.sock, sock, if 0 ≤ sock then handlersOf event else []⟩ }
  | _, _ => { state with net := net, batch := batch }

/-- Whether the poller has called all handlers of its event. -/
def idle (state : State) : Bool := state.current.all fun current => current.handlers.isEmpty

/-- The transport that an operation destroys. -/
def destroyed : Op → Option Nat
  | .destroy transport _ => some transport
  | _ => none

/-- An operation, which does not destroy the transport in `_trans`. -/
def act (state : State) (op : Op) : Option State :=
  if ∃ current ∈ state.current, destroyed op = some current.transport then none
  else (state.net.step op).map fun net => { state with net := net }

/-- A step of the poller or of another thread. -/
def step (state : State) : Step → Option State
  | .wait events =>
      if state.batch = [] ∧ state.current.isNone then
        some { state with registered := state.net.holder.lookup, batch := events }
      else none
  | .act op => state.act op
  | .take =>
      match state.batch with
      | [] => none
      | event :: batch => if state.idle then some (state.take event batch) else none
  | .call =>
      match state.current with
      | some ⟨transport, event, sock, handler :: handlers⟩ =>
          some { state with
            current := some ⟨transport, event, sock, handlers⟩
            invoked := state.invoked ++
              [⟨handler, transport, event, sock, state.registered event⟩] }
      | _ => none
  | .finish =>
      if state.batch = [] ∧ state.idle then some { state with current := none } else none

end State

/-- A handler called on the transport that was registered for the event, which had
not been closed when its event was taken. -/
def Invocation.Right (invocation : Invocation) : Prop :=
  invocation.registered = some invocation.transport ∧ invocation.sock = invocation.event

/-- The entry that an operation may put into the holder. -/
def registers (net : Network) : Op → Option (Int32 × Nat)
  | .init transport sock _ =>
      if net.mSocketOf transport > 2 ∨ sock < 0 then none else some (sock, transport)
  | .add transport _ =>
      if net.sockOf transport = -1 then none else some (net.sockOf transport, transport)
  | _ => none

namespace State

/-- An operation that registers nobody under a number with an event still to come,
apart from the transport that was registered there. -/
def Unmixed (state : State) : Step → Prop
  | .act op => ∀ entry ∈ registers state.net op, ∀ event ∈ state.batch, event.sock = entry.1 →
      state.registered entry.1 = some entry.2
  | _ => True

instance : ∀ (state : State) (step : Step), Decidable (state.Unmixed step)
  | state, .act op => by
      unfold Unmixed
      infer_instance
  | _, .wait _ | _, .take | _, .call | _, .finish => isTrue trivial

/-- Who is found under a number with an event still to come is the one who was
registered there. -/
structure Inv (state : State) : Prop where
  batch : ∀ event ∈ state.batch, ∀ transport,
    state.net.holder.lookup event.sock = some transport →
      state.registered event.sock = some transport
  current : ∀ current ∈ state.current, current.handlers ≠ [] →
    state.registered current.event = some current.transport ∧ current.sock = current.event
  invoked : ∀ invocation ∈ state.invoked, invocation.Right

end State

/-- What is in the holder after an operation was there before, or the operation has
registered it. -/
theorem lookup_of_step {net next : Network} {op : Op} (hstep : net.step op = some next)
    {number : Int32} {found : Nat} (hfound : next.holder.lookup number = some found) :
    net.holder.lookup number = some found ∨ registers net op = some (number, found) := by
  cases op with
  | init transport sock ok =>
      obtain ⟨-, hnext⟩ := Option.ite_none_right_eq_some.mp hstep
      obtain rfl := Option.some.inj hnext
      refine (lookup_of_udpInit _ _ _ _ hfound).imp_right ?_
      rintro ⟨hready, herror, rfl, rfl⟩
      exact if_neg (not_or.mpr ⟨hready, herror⟩)
  | add transport ok =>
      obtain ⟨-, hnext⟩ := Option.ite_none_right_eq_some.mp hstep
      obtain rfl := Option.some.inj hnext
      refine (lookup_of_addTransport _ _ _ hfound).imp_right ?_
      rintro ⟨hsock, rfl, rfl⟩
      exact if_neg hsock
  | close transport ok =>
      obtain ⟨-, hnext⟩ := Option.ite_none_right_eq_some.mp hstep
      obtain rfl := Option.some.inj hnext
      exact Or.inl (lookup_of_closeTransport _ _ _ hfound)
  | passive event =>
      obtain rfl := Option.some.inj hstep
      exact Or.inl (lookup_of_passiveClose _ _ hfound)
  | destroy transport ok =>
      obtain ⟨-, hnext⟩ := Option.ite_none_right_eq_some.mp hstep
      obtain rfl := Option.some.inj hnext
      have honce := lookup_of_closeTransport _ _ _ hfound
      exact Or.inl (lookup_of_closeTransport (net.kill transport) transport ok honce)

namespace State

variable {state next : State}

theorem Inv.act (hinv : state.Inv) {op : Op} (hunmixed : state.Unmixed (.act op))
    (hstep : state.act op = some next) : next.Inv := by
  obtain ⟨-, hnext⟩ := Option.ite_none_left_eq_some.mp hstep
  obtain ⟨net, hnet, rfl⟩ := Option.map_eq_some_iff.mp hnext
  refine ⟨?_, hinv.current, hinv.invoked⟩
  intro event hevent transport hfound
  rcases lookup_of_step hnet hfound with hold | hnew
  · exact hinv.batch event hevent transport hold
  · exact hunmixed _ hnew event hevent rfl

/-- The next event goes to the transport that was registered for it, or to none. -/
theorem Inv.take (hinv : state.Inv) {event : Event} {batch : List Event}
    (hbatch : state.batch = event :: batch) : (state.take event batch).Inv := by
  have hrest : ∀ other ∈ batch, other ∈ state.batch := fun other hother =>
    hbatch ▸ List.mem_cons_of_mem _ hother
  rcases fetch_cases state.net event.sock with ⟨transport, hlookup, husable, hfetch⟩ |
    ⟨err, taken, holder, hfetch, herr, hholder⟩
  · have htake : state.take event batch =
        { state with
          net := if event.hangup then state.net.passiveClose event.sock else state.net
          batch := batch
          current := some ⟨transport, event.sock, state.net.sockOf transport,
            if 0 ≤ state.net.sockOf transport then handlersOf event else []⟩ } := by
      rw [State.take, hfetch]
    rw [htake]
    refine ⟨?_, ?_, hinv.invoked⟩
    · intro other hother found hfound
      refine hinv.batch other (hrest other hother) found ?_
      dsimp only at hfound
      split at hfound
      · exact lookup_of_passiveClose _ _ hfound
      · exact hfound
    · intro current hcurrent _
      obtain rfl := Option.some.inj hcurrent
      refine ⟨hinv.batch event ?_ transport hlookup, sockOf_of_usable husable⟩
      exact hbatch ▸ List.mem_cons_self
  · have htake : state.take event batch =
        { state with net := { state.net with holder := holder }, batch := batch } := by
      rw [State.take, hfetch]
      cases err <;> first | exact absurd rfl herr | rfl
    rw [htake]
    refine ⟨?_, hinv.current, hinv.invoked⟩
    intro other hother found hfound
    refine hinv.batch other (hrest other hother) found (lookup_of_fetch state.net event.sock ?_)
    rw [hfetch]
    exact hfound

theorem Inv.step (hinv : state.Inv) {step : Step} (hunmixed : state.Unmixed step)
    (hstep : state.step step = some next) : next.Inv := by
  cases step with
  | wait events =>
      obtain ⟨⟨-, hcurrent⟩, hnext⟩ := Option.ite_none_right_eq_some.mp hstep
      obtain rfl := Option.some.inj hnext
      refine ⟨fun event _ transport hfound => hfound, ?_, hinv.invoked⟩
      intro current hmem
      rw [Option.isNone_iff_eq_none.mp hcurrent] at hmem
      cases hmem
  | act op => exact hinv.act hunmixed hstep
  | take =>
      rw [State.step] at hstep
      split at hstep
      · cases hstep
      · rename_i event batch hbatch
        obtain ⟨-, hnext⟩ := Option.ite_none_right_eq_some.mp hstep
        exact Option.some.inj hnext ▸ hinv.take hbatch
  | call =>
      rw [State.step] at hstep
      split at hstep
      · rename_i transport event sock handler handlers hcurrent
        obtain rfl := Option.some.inj hstep
        have hright := hinv.current _ hcurrent (List.cons_ne_nil _ _)
        refine ⟨hinv.batch, ?_, ?_⟩
        · intro current hmem _
          obtain rfl := Option.some.inj hmem
          exact hright
        · intro invocation hmem
          rcases List.mem_append.mp hmem with hold | hnew
          · exact hinv.invoked invocation hold
          · obtain rfl := List.mem_singleton.mp hnew
            exact hright
      · cases hstep
  | finish =>
      obtain ⟨-, hnext⟩ := Option.ite_none_right_eq_some.mp hstep
      obtain rfl := Option.some.inj hnext
      exact ⟨hinv.batch, fun current hmem => absurd hmem (Option.not_mem_none _), hinv.invoked⟩

end State

theorem init_inv : State.Inv init where
  batch _ hmem := absurd hmem List.not_mem_nil
  current _ hmem := absurd hmem (Option.not_mem_none _)
  invoked _ hmem := absurd hmem List.not_mem_nil

/-- In a run whose operations register nobody under a number with an event still to
come, every handler is called on the transport that its event was for. -/
theorem invoked_right (steps : List Step) (hunmixed : Promised State.step State.Unmixed init steps)
    {final : State} (hrun : runMachine State.step init steps = some final) :
    ∀ invocation ∈ final.invoked, invocation.Right :=
  (runMachine_keeps State.Inv (fun _ _ _ hinv hstep hnext => hinv.step hstep hnext) init_inv
    hunmixed hrun).invoked

/-- Transports 0 and 1 have an event each. The handler of transport 0 closes
transport 1 and makes transport 2, which gets another number: the second event is
dropped. -/
theorem invoked_right_dropping : ∃ final,
    runMachine State.step init [.act (.init 0 5 true), .act (.init 1 6 true),
        .wait [⟨5, false, true, false⟩, ⟨6, false, true, false⟩], .take, .call,
        .act (.close 1 true), .act (.init 2 7 true), .take, .finish] = some final ∧
      (∀ invocation ∈ final.invoked, invocation.Right) ∧
      final.invoked = [⟨.handleRead, 0, 5, 5, some 0⟩] := by
  have hrun : (runMachine State.step init [.act (.init 0 5 true), .act (.init 1 6 true),
      .wait [⟨5, false, true, false⟩, ⟨6, false, true, false⟩], .take, .call,
      .act (.close 1 true), .act (.init 2 7 true), .take, .finish]).map State.invoked =
        some [⟨.handleRead, 0, 5, 5, some 0⟩] := by
    decide +kernel
  obtain ⟨final, hfinal, hinvoked⟩ := Option.map_eq_some_iff.mp hrun
  exact ⟨final, hfinal, invoked_right _ (by decide +kernel) hfinal, hinvoked⟩

/-- Where transport 2 gets the number of transport 1, the event of transport 1 makes
the poller read from transport 2. -/
theorem stale_event_dispatched :
    ¬ ∀ (steps : List Step) (final : State), runMachine State.step init steps = some final →
      ∀ invocation ∈ final.invoked, invocation.Right := by
  intro hclaim
  have hrun : (runMachine State.step init [.act (.init 0 5 true), .act (.init 1 6 true),
      .wait [⟨5, false, true, false⟩, ⟨6, false, true, false⟩], .take, .call,
      .act (.close 1 true), .act (.init 2 6 true), .take, .call]).map State.invoked =
        some [⟨.handleRead, 0, 5, 5, some 0⟩, ⟨.handleRead, 2, 6, 6, some 1⟩] := by
    decide +kernel
  obtain ⟨final, hfinal, hinvoked⟩ := Option.map_eq_some_iff.mp hrun
  have hright := hclaim _ final hfinal ⟨.handleRead, 2, 6, 6, some 1⟩ (by
    rw [hinvoked]
    decide)
  exact absurd hright.1 (by decide)

end McuProxy.Net.Dispatch
