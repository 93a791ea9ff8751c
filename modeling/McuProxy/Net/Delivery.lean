/-
# From deliver to doSend

`RTPTransport::deliver` does not put its packet into the sender's queue, but only
the buffer; the descriptor of the transport, the time and the two flags are left in
the metadata of the buffer, under names that every delivery uses. The sender reads
them when it takes the buffer, and asks the holder for the transport.

A second delivery of a buffer that is still queued therefore changes the first one
as well, and a number that has come to another transport in the meantime brings the
packet to that one. The sending loop also stores the flags over the bytes behind its
variables. Deliveries, a reuse of numbers and a frame of the loop that avoid all this
are enough for every packet to be sent as it was delivered.

A buffer is a number, and the calls of `deliver` are recorded with it in the queue;
the code has no such record. Each statement of `deliver` that touches a buffer is a
step, so that deliveries of several threads may overlap.
-/

import McuProxy.Net.Descriptors
import McuProxy.Net.Sender
import McuProxy.Net.SenderFrame

namespace McuProxy.Net.Delivery

open McuProxy.Math McuProxy.Memory

/-- A call of `RTPTransport::deliver`. -/
structure Call where
  transport : Nat
  buffer : Nat
  timeUs : Int64
  video : Bool
  marker : Bool
  deriving DecidableEq

/-- The metadata that `SocketSender::deliver` sets. -/
inductive Tag
  | ts
  | video
  | marker
  deriving DecidableEq

def Tag.name : Tag → String
  | .ts => "ts"
  | .video => "video"
  | .marker => "marker"

/-- What a call sets under a name. -/
def Call.value (call : Call) : Tag → Value
  | .ts => .int64 call.timeUs
  | .video => .int32 (flag call.video)
  | .marker => .int32 (flag call.marker)

/-- The settings of `SocketSender::deliver`. -/
def Call.set (call : Call) (buffer : MetaBuffer) : Tag → Option MetaBuffer
  | .ts => buffer.setInt64 "ts" call.timeUs
  | .video => buffer.setInt32 "video" (flag call.video)
  | .marker => buffer.setInt32 "marker" (flag call.marker)

theorem Call.set_eq (call : Call) (buffer : MetaBuffer) (tag : Tag) :
    call.set buffer tag = buffer.setItem tag.name (call.value tag) := by
  cases tag <;> rfl

/-- The statements of `SocketSender::deliver` before its locked section: the check
of "fd", and the settings. -/
inductive Statement
  | check
  | set (tag : Tag)
  deriving DecidableEq

/-- A call in progress, with the statements that are left. -/
structure InFlight where
  call : Call
  left : List Statement
  deriving DecidableEq

/-- A call of `doSend`, with the delivery that the buffer was queued for. -/
structure Sent where
  call : Call
  transport : Nat
  packet : Packet
  deriving DecidableEq

structure State where
  net : Network
  buffers : Nat → MetaBuffer
  inFlight : List InFlight
  sender : SocketSender Call
  sent : List Sent

/-- The buffers may have any metadata at first. -/
def init (buffers : Nat → MetaBuffer) : State := ⟨.init, buffers, [], .init, []⟩

inductive Step
  | act (op : Network.Op)
  | deliver (call : Call)
  | advance (k : Nat)
  | push (k : Nat)
  | wake
  | turn (frame : Mem)

namespace State

def setBuffer (state : State) (id : Nat) (buffer : MetaBuffer) : State :=
  { state with buffers := Function.update state.buffers id buffer }

/-- `RTPTransport::deliver` up to its call of the sender. Setting a value is
undefined when the table of the buffer is full. -/
def deliver (state : State) (call : Call) : Option State :=
  if state.net.mSocketOf call.transport = -1 then some state
  else
    ((state.buffers call.buffer).setInt32 "fd" (state.net.mSocketOf call.transport)).map
      fun buffer =>
        { state.setBuffer call.buffer buffer with
          inFlight := state.inFlight ++
            [⟨call, [.check, .set .ts, .set .video, .set .marker]⟩] }

/-- The next statement of a call in progress. -/
def advance (state : State) (k : Nat) : Option State :=
  match state.inFlight[k]? with
  | some ⟨call, .check :: left⟩ =>
      if ((state.buffers call.buffer).findInt32 "fd").isSome then
        some { state with inFlight := state.inFlight.set k ⟨call, left⟩ }
      else some { state with inFlight := state.inFlight.eraseIdx k }
  | some ⟨call, .set tag :: left⟩ =>
      (call.set (state.buffers call.buffer) tag).map fun buffer =>
        { state.setBuffer call.buffer buffer with inFlight := state.inFlight.set k ⟨call, left⟩ }
  | _ => none

/-- The locked section of a call. -/
def push (state : State) (k : Nat) : Option State :=
  match state.inFlight[k]? with
  | some ⟨call, []⟩ =>
      some { state with
        inFlight := state.inFlight.eraseIdx k
        sender := state.sender.pushBack call }
  | _ => none

/-- A turn of the sending loop that takes no buffer. -/
def idle (state : State) : Option State :=
  (state.sender.turn fun _ => .noError).map fun (sender, _) => { state with sender := sender }

/-- A turn that takes a buffer and has read a packet from it. -/
def send (state : State) (call : Call) (packet : Packet) : Option State :=
  let (err, transport, net) := state.net.fetch packet.fd
  (state.sender.turn fun _ => err).map fun (sender, _) =>
    { state with
      net := net
      sender := sender
      sent :=
        if err = .noError then
          state.sent ++ transport.toList.map fun transport => ⟨call, transport, packet⟩
        else state.sent }

/-- A turn of the sending loop, in a frame that holds `frame` before it. -/
def turn (layout : Layout) (state : State) (frame : Mem) : Option State :=
  match state.sender.taken with
  | none => state.idle
  | some call =>
      (layout.readPacket (state.buffers call.buffer) frame).bind fun packet =>
        state.send call packet

def step (layout : Layout) (state : State) : Step → Option State
  | .act op => (state.net.step op).map fun net => { state with net := net }
  | .deliver call =>
      if (state.net.transports call.transport).alive then state.deliver call else none
  | .advance k => state.advance k
  | .push k => state.push k
  | .wake => state.sender.wake.map fun sender => { state with sender := sender }
  | .turn frame => state.turn layout frame

/-- The deliveries that are in progress or queued. -/
def outstanding (state : State) : List Call :=
  state.inFlight.map InFlight.call ++ (state.sender.mPending ++ state.sender.mBuffers)

/-- A buffer is not delivered again in another way while it is outstanding, a
transport delivers only while its number is in `sock` of no other transport, and no
transport gets a number under which a buffer is outstanding for another one. When a
buffer is taken, the stores of its flags spare what the loop found before them. -/
def Undisturbed (layout : Layout) (state : State) : Step → Prop
  | .deliver call =>
      state.net.mSocketOf call.transport = -1 ∨
        (∀ other ∈ state.outstanding, other.buffer = call.buffer → other = call) ∧
          ∀ other, state.net.sockOf other = state.net.mSocketOf call.transport →
            other = call.transport
  | .act (.init transport sock _) =>
      state.net.mSocketOf transport > 2 ∨ sock < 0 ∨
        ∀ call ∈ state.outstanding, call.transport ≠ transport →
          (state.buffers call.buffer).findInt32 "fd" ≠ some sock
  | .turn _ =>
      ∀ call, state.sender.taken = some call → ∀ number,
        (state.buffers call.buffer).findInt32 "fd" = some number →
          layout.Spares number call.video
  | _ => True

end State

/-- A packet sent by the transport that it was delivered on, with the arguments of
that call. -/
def Sent.Right (sent : Sent) : Prop :=
  sent.transport = sent.call.transport ∧ sent.packet.timeUs = sent.call.timeUs ∧
    sent.packet.video = sent.call.video ∧ sent.packet.marker = sent.call.marker

/-- Where a number in `sock` comes from. -/
theorem sockOf_of_step {net next : Network} {op : Network.Op} (hstep : net.step op = some next)
    {number : Int32} (hnumber : number ≠ -1) {other : Nat} (hsock : next.sockOf other = number) :
    net.sockOf other = number ∨
      ∃ ok, op = .init other number ok ∧ ¬ net.mSocketOf other > 2 ∧ ¬ number < 0 := by
  cases op with
  | init transport sock ok =>
      obtain ⟨-, hnext⟩ := Option.ite_none_right_eq_some.mp hstep
      obtain rfl := Option.some.inj hnext
      by_cases heq : other = transport
      · subst heq
        rcases Network.sockOf_udpInit net other sock ok with hsame | ⟨hready, herror, hnew⟩
        · exact Or.inl (hsame.symm.trans hsock)
        · obtain rfl : sock = number := hnew.symm.trans hsock
          exact Or.inr ⟨ok, rfl, hready, herror⟩
      · rw [Network.sockOf_udpInit_of_ne _ _ _ _ heq] at hsock
        exact Or.inl hsock
  | add transport ok =>
      obtain ⟨-, hnext⟩ := Option.ite_none_right_eq_some.mp hstep
      obtain rfl := Option.some.inj hnext
      obtain ⟨holder, polled, hadd⟩ := Network.addTransport_frame net transport ok
      rw [hadd] at hsock
      exact Or.inl hsock
  | close transport ok =>
      obtain ⟨-, hnext⟩ := Option.ite_none_right_eq_some.mp hstep
      obtain rfl := Option.some.inj hnext
      rw [Network.sockOf_closeTransport] at hsock
      split at hsock
      · exact absurd hsock.symm hnumber
      · exact Or.inl hsock
  | passive event =>
      obtain rfl := Option.some.inj hstep
      rcases Network.sockOf_passiveClose net event other with hsame | hnone
      · exact Or.inl (hsame.symm.trans hsock)
      · exact absurd (hsock.symm.trans hnone) hnumber
  | destroy transport ok =>
      obtain ⟨-, hnext⟩ := Option.ite_none_right_eq_some.mp hstep
      obtain rfl := Option.some.inj hnext
      rw [Network.destroy, Network.sockOf_closeTransport] at hsock
      split at hsock
      · exact absurd hsock.symm hnumber
      · rename_i hne
        rw [Network.sockOf_closeTransport, if_neg hne, Network.sockOf_kill] at hsock
        exact Or.inl hsock

/-! ## The invariant -/

/-- The number in a buffer belongs to the transport of the call, as far as `sock` of
any transport tells. -/
def Addressed (net : Network) (buffer : MetaBuffer) (call : Call) : Prop :=
  ∃ number, buffer.findValue "fd" = some (.int32 number) ∧ number ≠ -1 ∧
    ∀ other, net.sockOf other = number → other = call.transport

/-- A buffer that carries all that a call sets. -/
def Labelled (buffer : MetaBuffer) (call : Call) : Prop :=
  ∀ tag : Tag, buffer.findValue tag.name = some (call.value tag)

structure State.Inv (state : State) : Prop where
  unique : ∀ first ∈ state.outstanding, ∀ second ∈ state.outstanding,
    first.buffer = second.buffer → first = second
  addressed : ∀ call ∈ state.outstanding, Addressed state.net (state.buffers call.buffer) call
  started : ∀ flight ∈ state.inFlight, ∀ tag : Tag, Statement.set tag ∉ flight.left →
    (state.buffers flight.call.buffer).findValue tag.name = some (flight.call.value tag)
  labelled : ∀ call ∈ state.sender.mPending ++ state.sender.mBuffers,
    Labelled (state.buffers call.buffer) call
  sent : ∀ sent ∈ state.sent, sent.Right

theorem Tag.name_ne_fd (tag : Tag) : "fd" ≠ tag.name := by
  cases tag <;> decide

theorem Tag.name_injective {first second : Tag} (hname : first.name = second.name) :
    first = second := by
  cases first <;> cases second <;> first | rfl | exact absurd hname (by decide)

/-- A value that is not to be set any more once the check has been made was not to be
set before it, -/
theorem set_not_mem_check {tag : Tag} {left : List Statement} (htag : Statement.set tag ∉ left) :
    Statement.set tag ∉ .check :: left := by
  intro hmem
  rcases List.mem_cons.mp hmem with hcheck | hleft
  · cases hcheck
  · exact htag hleft

/-- and one that is not to be set after another one was not to be set before that. -/
theorem set_not_mem_set {tag label : Tag} {left : List Statement} (hne : label ≠ tag)
    (hlabel : Statement.set label ∉ left) : Statement.set label ∉ .set tag :: left := by
  intro hmem
  rcases List.mem_cons.mp hmem with hfirst | hleft
  · exact hne (Statement.set.inj hfirst)
  · exact hlabel hleft

/-- What is found in the buffers after a value has been set in one of them. -/
theorem findValue_setBuffer {state : State} {id : Nat} {name : String} {value : Value}
    {buffer : MetaBuffer} (hset : (state.buffers id).setItem name value = some buffer)
    (other : Nat) (label : String) :
    ((state.setBuffer id buffer).buffers other).findValue label =
      if other = id ∧ label = name then some value else (state.buffers other).findValue label := by
  have htagged := MetaBuffer.setItem_tagged hset
  by_cases hid : other = id
  · subst hid
    have hself : (state.setBuffer other buffer).buffers other = buffer := Function.update_self _ _ _
    rw [hself]
    by_cases hlabel : label = name
    · rw [if_pos ⟨rfl, hlabel⟩, hlabel, htagged.same]
    · rw [if_neg fun hboth => hlabel hboth.2, htagged.others label hlabel]
  · have hother : (state.setBuffer id buffer).buffers other = state.buffers other :=
      Function.update_of_ne hid _ _
    rw [hother, if_neg fun hboth => hid hboth.1]

namespace State

variable {layout : Layout} {state next : State}

/-- The transports and the kernel. -/
theorem Inv.act (hinv : state.Inv) {op : Network.Op}
    (hundisturbed : state.Undisturbed layout (.act op))
    (hstep : state.step layout (.act op) = some next) : next.Inv := by
  obtain ⟨net, hnet, rfl⟩ := Option.map_eq_some_iff.mp hstep
  refine ⟨hinv.unique, ?_, hinv.started, hinv.labelled, hinv.sent⟩
  intro call hcall
  obtain ⟨number, hfd, hne, howner⟩ := hinv.addressed call hcall
  refine ⟨number, hfd, hne, fun other hother => ?_⟩
  rcases sockOf_of_step hnet hne hother with hold | ⟨ok, rfl, hready, herror⟩
  · exact howner other hold
  · by_contra hdifferent
    refine (hundisturbed.resolve_left hready).resolve_left herror call hcall
      (fun heq => hdifferent heq.symm) ?_
    rw [MetaBuffer.findInt32, hfd]

/-- A step after which less is outstanding, with the same numbers and buffers. -/
theorem Inv.shrink (hinv : state.Inv)
    (hsock : ∀ other, next.net.sockOf other = state.net.sockOf other)
    (hbuffers : next.buffers = state.buffers) (hfewer : next.outstanding ⊆ state.outstanding)
    (hflight : next.inFlight ⊆ state.inFlight)
    (hqueue : ∀ call ∈ next.sender.mPending ++ next.sender.mBuffers,
      Labelled (state.buffers call.buffer) call)
    (hsent : ∀ sent ∈ next.sent, sent.Right) : next.Inv where
  unique first hfirst second hsecond := hinv.unique first (hfewer hfirst) second (hfewer hsecond)
  addressed call hcall := by
    obtain ⟨number, hfd, hne, howner⟩ := hinv.addressed call (hfewer hcall)
    exact ⟨number, by rw [hbuffers, hfd], hne, fun other hother =>
      howner other ((hsock other).symm.trans hother)⟩
  started flight hmem tag htag := by
    rw [hbuffers]
    exact hinv.started flight (hflight hmem) tag htag
  labelled call hcall := by
    rw [hbuffers]
    exact hqueue call hcall
  sent := hsent

/-- A new delivery: the buffer is not outstanding in another way, so "fd" changes for
this call only. -/
theorem Inv.deliver (hinv : state.Inv) {call : Call}
    (hundisturbed : state.Undisturbed layout (.deliver call))
    (hstep : state.deliver call = some next) :
    next.Inv := by
  unfold State.deliver at hstep
  split at hstep
  · exact Option.some.inj hstep ▸ hinv
  rename_i hsocket
  obtain ⟨hsame, howner⟩ := hundisturbed.resolve_left hsocket
  obtain ⟨buffer, hset, rfl⟩ := Option.map_eq_some_iff.mp hstep
  have hfind := findValue_setBuffer hset
  have hmem : ∀ other,
      other ∈ (state.inFlight ++ [(⟨call, [.check, .set .ts, .set .video, .set .marker]⟩ :
        InFlight)]).map InFlight.call ++ (state.sender.mPending ++ state.sender.mBuffers) →
      other ∈ state.outstanding ∨ other = call := by
    intro other hother
    simp only [outstanding, List.map_append, List.mem_append, List.map_cons, List.map_nil,
      List.mem_singleton] at hother ⊢
    tauto
  have hnew : ∀ other, (other ∈ state.outstanding ∨ other = call) →
      other.buffer = call.buffer → other = call := by
    intro other hother hbuffer
    exact hother.elim (fun hold => hsame other hold hbuffer) id
  have hold : ∀ other, (other ∈ state.outstanding ∨ other = call) →
      other.buffer ≠ call.buffer → other ∈ state.outstanding := by
    intro other hother hbuffer
    exact hother.resolve_right fun heq => hbuffer (congrArg Call.buffer heq)
  have hkept : ∀ id (tag : Tag), ((state.setBuffer call.buffer buffer).buffers id).findValue
      tag.name = (state.buffers id).findValue tag.name := by
    intro id tag
    rw [hfind, if_neg fun hboth => tag.name_ne_fd hboth.2.symm]
  refine ⟨?_, ?_, ?_, ?_, hinv.sent⟩
  · intro first hfirst second hsecond hbuffer
    by_cases hself : first.buffer = call.buffer
    · rw [hnew first (hmem first hfirst) hself,
        hnew second (hmem second hsecond) (hbuffer.symm.trans hself)]
    · exact hinv.unique first (hold first (hmem first hfirst) hself) second
        (hold second (hmem second hsecond) (hbuffer ▸ hself)) hbuffer
  · intro other hother
    by_cases hbuffer : other.buffer = call.buffer
    · obtain rfl := hnew other (hmem other hother) hbuffer
      exact ⟨_, (hfind other.buffer "fd").trans (if_pos ⟨rfl, rfl⟩), hsocket, howner⟩
    · obtain ⟨number, hfd, hne, howner'⟩ :=
        hinv.addressed other (hold other (hmem other hother) hbuffer)
      refine ⟨number, (hfind other.buffer "fd").trans ?_, hne, howner'⟩
      rw [if_neg fun hboth => hbuffer hboth.1, hfd]
  · intro flight hflight tag htag
    refine (hkept flight.call.buffer tag).trans ?_
    rcases List.mem_append.mp hflight with hold | hlast
    · exact hinv.started flight hold tag htag
    · obtain rfl := List.mem_singleton.mp hlast
      exact absurd (by cases tag <;> simp) htag
  · intro other hother tag
    exact (hkept other.buffer tag).trans (hinv.labelled other hother tag)

/-- The list with one call further on holds the same calls. -/
theorem map_call_set {flights : List InFlight} {k : Nat} {call : Call} {before : List Statement}
    (hget : flights[k]? = some ⟨call, before⟩) (left : List Statement) :
    (flights.set k ⟨call, left⟩).map InFlight.call = flights.map InFlight.call := by
  obtain ⟨hk, hself⟩ := List.getElem?_eq_some_iff.mp hget
  rw [List.map_set]
  refine List.ext_getElem (by simp) fun i hi hi' => ?_
  rw [List.getElem_set, List.getElem_map]
  split
  · rename_i heq
    subst heq
    rw [hself]
  · rfl

/-- A call that sets a value sets it for the other calls of the buffer as well, which
are the same call. -/
theorem Inv.set (hinv : state.Inv) {k : Nat} {call : Call} {tag : Tag} {left : List Statement}
    (hget : state.inFlight[k]? = some ⟨call, .set tag :: left⟩) {buffer : MetaBuffer}
    (hset : (state.buffers call.buffer).setItem tag.name (call.value tag) = some buffer) :
    State.Inv { state.setBuffer call.buffer buffer with
      inFlight := state.inFlight.set k ⟨call, left⟩ } := by
  have hcall : call ∈ state.outstanding :=
    List.mem_append_left _ (List.mem_map_of_mem (List.mem_of_getElem? hget))
  have hsame : State.outstanding { state.setBuffer call.buffer buffer with
      inFlight := state.inFlight.set k ⟨call, left⟩ } = state.outstanding :=
    congrArg (· ++ (state.sender.mPending ++ state.sender.mBuffers)) (map_call_set hget left)
  have hfind := findValue_setBuffer hset
  have hkept : ∀ other ∈ state.outstanding, ∀ label : Tag,
      (state.buffers other.buffer).findValue label.name = some (other.value label) →
      ((state.setBuffer call.buffer buffer).buffers other.buffer).findValue label.name =
        some (other.value label) := by
    intro other hother label hlabel
    rw [hfind]
    split
    · rename_i hboth
      obtain rfl := hinv.unique other hother call hcall hboth.1
      rw [Tag.name_injective hboth.2]
    · exact hlabel
  constructor
  · rw [hsame]
    exact hinv.unique
  · rw [hsame]
    intro other hother
    obtain ⟨number, hfd, hne, howner⟩ := hinv.addressed other hother
    refine ⟨number, ?_, hne, howner⟩
    exact (hfind other.buffer "fd").trans ((if_neg fun hboth => tag.name_ne_fd hboth.2).trans hfd)
  · intro flight hflight label hlabel
    rcases List.mem_or_eq_of_mem_set hflight with hold | rfl
    · exact hkept flight.call (List.mem_append_left _ (List.mem_map_of_mem hold)) label
        (hinv.started flight hold label hlabel)
    · by_cases heq : label = tag
      · subst heq
        exact (hfind call.buffer label.name).trans (if_pos ⟨rfl, rfl⟩)
      · refine hkept call hcall label ?_
        exact hinv.started _ (List.mem_of_getElem? hget) label (set_not_mem_set heq hlabel)
  · intro other hother label
    exact hkept other (List.mem_append_right _ hother) label (hinv.labelled other hother label)
  · exact hinv.sent

/-- The calls in progress after one of them has ended. -/
theorem eraseIdx_subset (flights : List InFlight) (k : Nat) : flights.eraseIdx k ⊆ flights :=
  fun _ hmem => List.mem_of_mem_eraseIdx hmem

theorem Inv.advance (hinv : state.Inv) {k : Nat} (hstep : state.advance k = some next) :
    next.Inv := by
  unfold State.advance at hstep
  split at hstep
  · rename_i call left hget
    split at hstep
    · obtain rfl := Option.some.inj hstep
      have hsame := map_call_set hget left
      refine ⟨?_, ?_, ?_, hinv.labelled, hinv.sent⟩
      · simp only [outstanding, hsame]
        exact hinv.unique
      · simp only [outstanding, hsame]
        exact hinv.addressed
      · intro flight hflight tag htag
        rcases List.mem_or_eq_of_mem_set hflight with hold | rfl
        · exact hinv.started flight hold tag htag
        · exact hinv.started _ (List.mem_of_getElem? hget) tag (set_not_mem_check htag)
    · obtain rfl := Option.some.inj hstep
      have hfewer := eraseIdx_subset state.inFlight k
      refine hinv.shrink (fun _ => rfl) rfl ?_ hfewer hinv.labelled hinv.sent
      exact List.append_subset.mpr ⟨List.Subset.trans (List.map_subset _ hfewer)
        (List.subset_append_left _ _), List.subset_append_right _ _⟩
  · rename_i call tag left hget
    obtain ⟨buffer, hset, rfl⟩ := Option.map_eq_some_iff.mp hstep
    exact hinv.set hget (call.set_eq _ tag ▸ hset)
  · cases hstep

/-- A call that has come to its locked section has set everything. -/
theorem Inv.push (hinv : state.Inv) {k : Nat} (hstep : state.push k = some next) : next.Inv := by
  unfold State.push at hstep
  split at hstep
  · rename_i call hget
    obtain rfl := Option.some.inj hstep
    have hmem := List.mem_of_getElem? hget
    have hcall : call ∈ state.outstanding := List.mem_append_left _ (List.mem_map_of_mem hmem)
    have hfewer := eraseIdx_subset state.inFlight k
    refine hinv.shrink (fun _ => rfl) rfl ?_ hfewer ?_ hinv.sent
    · refine List.append_subset.mpr ⟨List.Subset.trans (List.map_subset _ hfewer)
        (List.subset_append_left _ _), ?_⟩
      intro other hother
      simp only [SocketSender.pushBack, ← List.append_assoc] at hother
      rcases List.mem_append.mp hother with hold | hlast
      · exact List.mem_append_right _ hold
      · obtain rfl := List.mem_singleton.mp hlast
        exact hcall
    · intro other hother
      simp only [SocketSender.pushBack, ← List.append_assoc] at hother
      rcases List.mem_append.mp hother with hold | hlast
      · exact hinv.labelled other hold
      · obtain rfl := List.mem_singleton.mp hlast
        exact fun tag => hinv.started _ hmem tag List.not_mem_nil
  · cases hstep

theorem Inv.wake (hinv : state.Inv) (hstep : state.step layout .wake = some next) :
    next.Inv := by
  obtain ⟨sender, hwake, rfl⟩ := Option.map_eq_some_iff.mp hstep
  obtain ⟨-, hbuffers, hpending, -⟩ := SocketSender.wake_eq hwake
  have hsame : sender.mPending ++ sender.mBuffers =
      state.sender.mPending ++ state.sender.mBuffers := by
    rw [hbuffers, hpending, List.append_nil]
  refine hinv.shrink (fun _ => rfl) rfl ?_ (List.Subset.refl _) ?_ hinv.sent
  · simp only [outstanding, hsame]
    exact List.Subset.refl _
  · rw [hsame]
    exact hinv.labelled

/-- What the sender reads from a buffer that carries all that a call sets. -/
theorem readPacket_of_labelled {buffer : MetaBuffer} {call : Call}
    (hlabelled : Labelled buffer call) {number : Int32}
    (hfd : buffer.findInt32 "fd" = some number) (hspares : layout.Spares number call.video)
    {frame : Mem} {packet : Packet} (hread : layout.readPacket buffer frame = some packet) :
    packet = ⟨number, call.video, call.marker, call.timeUs⟩ := by
  have hvideo : buffer.findInt32 "video" = some (flag call.video) :=
    MetaBuffer.findInt32_eq (hlabelled .video)
  have hmarker : buffer.findInt32 "marker" = some (flag call.marker) :=
    MetaBuffer.findInt32_eq (hlabelled .marker)
  have hts : buffer.findInt64 "ts" = some call.timeUs := MetaBuffer.findInt64_eq (hlabelled .ts)
  have hspills : ¬ layout.Spills buffer := (Option.ite_none_left_eq_some.mp hread).1
  rw [layout.readPacket_eq ⟨number, call.video, call.marker, call.timeUs⟩
    hfd hvideo hmarker hts hspares hspills] at hread
  exact (Option.some.inj hread).symm

theorem Inv.idle (hinv : state.Inv) (htaken : state.sender.taken = none)
    (hstep : state.idle = some next) : next.Inv := by
  obtain ⟨⟨sender, took⟩, hturn, rfl⟩ := Option.map_eq_some_iff.mp hstep
  obtain ⟨hbuffers, ⟨-, hpending⟩ | ⟨call, hcall, -⟩⟩ := SocketSender.turn_taken hturn
  · have hqueue : sender.mPending ++ sender.mBuffers =
        state.sender.mPending ++ state.sender.mBuffers := by
      rw [hpending, hbuffers]
    refine hinv.shrink (fun _ => rfl) rfl ?_ (List.Subset.refl _) ?_ hinv.sent
    · simp only [outstanding, hqueue]
      exact List.Subset.refl _
    · rw [hqueue]
      exact hinv.labelled
  · exact absurd (htaken.symm.trans hcall) (by simp)

/-- A packet that is sent with what its delivery set: a transport that is found under
its number is the one it was delivered on. -/
theorem Inv.send (hinv : state.Inv) {call : Call} (htaken : state.sender.taken = some call)
    {number : Int32} (hfd : (state.buffers call.buffer).findInt32 "fd" = some number)
    (hstep : state.send call ⟨number, call.video, call.marker, call.timeUs⟩ = some next) :
    next.Inv := by
  rcases hfetch : state.net.fetch number with ⟨err, transport, net⟩
  simp only [State.send, hfetch] at hstep
  obtain ⟨⟨sender, took⟩, hturn, rfl⟩ := Option.map_eq_some_iff.mp hstep
  obtain ⟨hbuffers, ⟨hnone, -⟩ | ⟨first, hfirst, hpending⟩⟩ := SocketSender.turn_taken hturn
  · exact absurd (hnone.symm.trans htaken) (by simp)
  obtain rfl := Option.some.inj (hfirst.symm.trans htaken)
  have hmem : first ∈ state.sender.mPending ++ state.sender.mBuffers := by
    rw [hpending]
    exact List.mem_cons_self
  have hrest : sender.mPending ++ sender.mBuffers ⊆
      state.sender.mPending ++ state.sender.mBuffers := by
    rw [hpending, hbuffers]
    exact List.subset_cons_self _ _
  obtain ⟨held, hheld, -, howner⟩ := hinv.addressed first (List.mem_append_right _ hmem)
  obtain rfl : held = number :=
    Option.some.inj ((MetaBuffer.findInt32_eq hheld).symm.trans hfd)
  have hsock : ∀ other, net.sockOf other = state.net.sockOf other := by
    intro other
    obtain ⟨holder, hframe⟩ := Network.fetch_frame state.net held
    rw [hfetch] at hframe
    obtain rfl : net = { state.net with holder := holder } := hframe
    rfl
  refine hinv.shrink hsock rfl ?_ (List.Subset.refl _)
    (fun other hother => hinv.labelled other (hrest hother)) ?_
  · exact List.append_subset.mpr ⟨List.subset_append_left _ _,
      List.Subset.trans hrest (List.subset_append_right _ _)⟩
  · dsimp only
    split
    · rename_i herr
      intro sent hsent
      rcases List.mem_append.mp hsent with hold | hnew
      · exact hinv.sent sent hold
      · obtain ⟨found, hfound, rfl⟩ := List.mem_map.mp hnew
        obtain rfl := Option.mem_toList.mp hfound
        rcases Network.fetch_cases state.net held with ⟨usable, -, husable, heq⟩ |
          ⟨failed, other, holder, heq, hfailed, -⟩
        · obtain ⟨-, htransport⟩ := Prod.mk.inj (hfetch.symm.trans heq)
          obtain rfl := Option.some.inj (Prod.mk.inj htransport).1
          exact ⟨howner found (Network.sockOf_of_usable husable), rfl, rfl, rfl⟩
        · exact absurd ((Prod.mk.inj (hfetch.symm.trans heq)).1.symm.trans herr) hfailed
    · exact hinv.sent

/-- The buffer that is taken carries its own delivery, and the loop reads what the
buffer carries. -/
theorem Inv.turn (hinv : state.Inv) {frame : Mem}
    (hundisturbed : state.Undisturbed layout (.turn frame))
    (hstep : state.turn layout frame = some next) : next.Inv := by
  unfold State.turn at hstep
  split at hstep
  · rename_i htaken
    exact hinv.idle htaken hstep
  · rename_i call htaken
    obtain ⟨packet, hread, hsend⟩ := Option.bind_eq_some_iff.mp hstep
    have hmem : call ∈ state.sender.mPending ++ state.sender.mBuffers :=
      List.mem_append_left _ (SocketSender.mem_of_taken htaken)
    obtain ⟨number, hvalue, -, -⟩ := hinv.addressed call (List.mem_append_right _ hmem)
    have hfd := MetaBuffer.findInt32_eq hvalue
    obtain rfl := readPacket_of_labelled (hinv.labelled call hmem) hfd
      (hundisturbed call htaken number hfd) hread
    exact hinv.send htaken hfd hsend

/-- One step that disturbs no delivery. -/
theorem Inv.step (hinv : state.Inv) {step : Step} (hundisturbed : state.Undisturbed layout step)
    (hstep : state.step layout step = some next) : next.Inv := by
  cases step with
  | act op => exact hinv.act hundisturbed hstep
  | deliver call =>
      obtain ⟨-, hdeliver⟩ := Option.ite_none_right_eq_some.mp hstep
      exact hinv.deliver hundisturbed hdeliver
  | advance k => exact hinv.advance hstep
  | push k => exact hinv.push hstep
  | wake => exact hinv.wake hstep
  | turn frame => exact hinv.turn hundisturbed hstep

end State

theorem init_inv (buffers : Nat → MetaBuffer) : (init buffers).Inv where
  unique _ hmem := absurd hmem List.not_mem_nil
  addressed _ hmem := absurd hmem List.not_mem_nil
  started _ hmem := absurd hmem List.not_mem_nil
  labelled _ hmem := absurd hmem List.not_mem_nil
  sent _ hmem := absurd hmem List.not_mem_nil

/-- In a run that disturbs no outstanding delivery, every packet is sent by the
transport it was delivered on, with the arguments of its delivery. -/
theorem sent_right (layout : Layout) (buffers : Nat → MetaBuffer) (steps : List Step)
    (hundisturbed : Promised (State.step layout) (State.Undisturbed layout) (init buffers) steps)
    {final : State}
    (hrun : runMachine (State.step layout) (init buffers) steps = some final) :
    ∀ sent ∈ final.sent, sent.Right :=
  (runMachine_keeps State.Inv (fun _ _ _ hinv hstep hnext => hinv.step hstep hnext)
    (init_inv buffers) hundisturbed hrun).sent

/-- Buffers of twelve bytes, without metadata. -/
def fresh (_ : Nat) : MetaBuffer := MetaBuffer.create (List.replicate 12 0)

/-- A frame of zeros. -/
def unset : Mem := fun _ => 0

/-- Three unused bytes behind each flag. -/
def roomy : Layout :=
  ⟨0, 8, 16, 24, [4, 5, 6, 7, 12, 20], by decide, by decide, by decide, by decide, by decide,
    by decide⟩

/-- `marker` right before `video`. -/
def packed : Layout :=
  ⟨0, 5, 4, 16, [], by decide, by decide, by decide, by decide, by decide, by decide⟩

theorem spares_roomy (number : Int32) (video : Bool) : roomy.Spares number video where
  video hbehind := absurd hbehind (by decide)
  fd k hk hbehind := absurd hbehind (by interval_cases k <;> decide)

/-- Transports 0 and 1 deliver a buffer each, and transport 1 goes before the sender
wakes: its packet is dropped. -/
theorem sent_right_dropping : ∃ final,
    runMachine (State.step roomy) (init fresh) [.act (.init 0 5 true), .act (.init 1 6 true),
        .deliver ⟨0, 0, 10, true, false⟩, .deliver ⟨1, 1, 20, false, true⟩,
        .advance 0, .advance 1, .advance 0, .advance 1, .advance 0, .advance 1, .advance 0,
        .advance 1, .push 0, .push 0, .act (.destroy 1 true), .wake, .turn unset,
        .turn unset] = some final ∧
      (∀ sent ∈ final.sent, sent.Right) ∧
      final.sent = [⟨⟨0, 0, 10, true, false⟩, 0, ⟨5, true, false, 10⟩⟩] := by
  have hrun : (runMachine (State.step roomy) (init fresh)
    [.act (.init 0 5 true), .act (.init 1 6 true),
      .deliver ⟨0, 0, 10, true, false⟩, .deliver ⟨1, 1, 20, false, true⟩,
      .advance 0, .advance 1, .advance 0, .advance 1, .advance 0, .advance 1, .advance 0,
      .advance 1, .push 0, .push 0, .act (.destroy 1 true), .wake, .turn unset,
      .turn unset]).map State.sent =
        some [⟨⟨0, 0, 10, true, false⟩, 0, ⟨5, true, false, 10⟩⟩] := by
    decide +kernel
  have hsock : ∀ other, (((Network.init.udpInit 0 5 true).2.udpInit 1 6 true).2).sockOf other =
      if other = 0 then 5 else if other = 1 then 6 else -1 := by
    intro other
    by_cases hfirst : other = 1
    · subst hfirst
      decide +kernel
    · rw [Network.sockOf_udpInit_of_ne _ _ _ _ hfirst, if_neg hfirst]
      by_cases hzero : other = 0
      · subst hzero
        decide +kernel
      · rw [Network.sockOf_udpInit_of_ne _ _ _ _ hzero, if_neg hzero]
        rfl
  have hfirst : ∀ other, (((Network.init.udpInit 0 5 true).2.udpInit 1 6 true).2).sockOf other = 5 →
      other = 0 := by
    intro other hother
    by_contra hne
    rw [hsock, if_neg hne] at hother
    split at hother <;> exact absurd hother (by decide)
  have hsecond : ∀ other,
    (((Network.init.udpInit 0 5 true).2.udpInit 1 6 true).2).sockOf other = 6 →
      other = 1 := by
    intro other hother
    by_contra hne
    rw [hsock, if_neg hne] at hother
    split at hother <;> exact absurd hother (by decide)
  obtain ⟨final, hfinal, hsent⟩ := Option.map_eq_some_iff.mp hrun
  refine ⟨final, hfinal, sent_right roomy fresh _ ?_ hfinal, hsent⟩
  refine Promised.cons (Or.inr (Or.inr fun _ hmem => absurd hmem List.not_mem_nil)) (by rfl)
    (Promised.cons (Or.inr (Or.inr fun _ hmem => absurd hmem List.not_mem_nil)) (by rfl)
      (Promised.cons (Or.inr ⟨fun _ hmem => absurd hmem List.not_mem_nil, hfirst⟩) (by rfl)
        (Promised.cons (Or.inr ⟨?_, hsecond⟩) (by rfl) ?_)))
  · intro other hother hbuffer
    obtain rfl := List.mem_singleton.mp hother
    exact absurd hbuffer (by decide)
  · exact Promised.always (by simp [State.Undisturbed, spares_roomy])

/-- One buffer is delivered on transport 0 and then on transport 1, before the sender
wakes: both times it is sent by transport 1 as the second call would have it. -/
theorem redelivered_sent_twice :
    ¬ ∀ (layout : Layout) (buffers : Nat → MetaBuffer) (steps : List Step) (final : State),
      runMachine (State.step layout) (init buffers) steps = some final →
        ∀ sent ∈ final.sent, sent.Right := by
  intro hclaim
  have hrun : (runMachine (State.step roomy) (init fresh)
    [.act (.init 0 5 true), .act (.init 1 6 true),
      .deliver ⟨0, 0, 10, true, false⟩, .advance 0, .advance 0, .advance 0, .advance 0, .push 0,
      .deliver ⟨1, 0, 20, false, true⟩, .advance 0, .advance 0, .advance 0, .advance 0, .push 0,
      .wake, .turn unset, .turn unset]).map State.sent =
        some [⟨⟨0, 0, 10, true, false⟩, 1, ⟨6, false, true, 20⟩⟩,
          ⟨⟨1, 0, 20, false, true⟩, 1, ⟨6, false, true, 20⟩⟩] := by
    decide +kernel
  obtain ⟨final, hfinal, hsent⟩ := Option.map_eq_some_iff.mp hrun
  have hright := hclaim roomy fresh _ final hfinal
    ⟨⟨0, 0, 10, true, false⟩, 1, ⟨6, false, true, 20⟩⟩ (by
      rw [hsent]
      exact List.mem_cons_self)
  exact absurd hright.1 (by decide)

/-- One delivery and one turn of the loop, in a frame with `marker` right before
`video`: the packet is sent as no video. -/
theorem packed_frame_clears_video :
    (runMachine (State.step packed) (init fresh) [.act (.init 0 5 true),
        .deliver ⟨0, 0, 10, true, true⟩, .advance 0, .advance 0, .advance 0, .advance 0, .push 0,
        .wake, .turn unset]).map State.sent =
      some [⟨⟨0, 0, 10, true, true⟩, 0, ⟨5, false, true, 10⟩⟩] := by
  decide +kernel

/-! ## The call in one piece -/

/-- The latest call has got as far as the statements that are left. -/
structure Delivering (start : State) (call : Call) (left : List Statement) (state : State) :
    Prop where
  inFlight : state.inFlight = start.inFlight ++ [⟨call, left⟩]
  sender : state.sender = start.sender
  net : state.net = start.net
  number : (state.buffers call.buffer).findValue "fd" =
    some (.int32 (start.net.mSocketOf call.transport))
  started : ∀ tag : Tag, Statement.set tag ∉ left →
    (state.buffers call.buffer).findValue tag.name = some (call.value tag)

theorem delivering_deliver {layout : Layout} {state next : State} {call : Call}
    (hsocket : state.net.mSocketOf call.transport ≠ -1)
    (hstep : state.step layout (.deliver call) = some next) :
    Delivering state call [.check, .set .ts, .set .video, .set .marker] next := by
  obtain ⟨-, hdeliver⟩ := Option.ite_none_right_eq_some.mp hstep
  rw [State.deliver, if_neg hsocket] at hdeliver
  obtain ⟨buffer, hset, rfl⟩ := Option.map_eq_some_iff.mp hdeliver
  refine ⟨rfl, rfl, rfl, ?_, fun tag htag => ?_⟩
  · exact (findValue_setBuffer hset call.buffer "fd").trans (if_pos ⟨rfl, rfl⟩)
  · exact absurd (by cases tag <;> simp) htag

/-- The next statement of the latest call. -/
theorem Delivering.advance {layout : Layout} {start state next : State} {call : Call}
    {statement : Statement}
    {left : List Statement} (hdelivering : Delivering start call (statement :: left) state)
    (hstep : state.step layout (.advance start.inFlight.length) = some next) :
    Delivering start call left next := by
  have hget : state.inFlight[start.inFlight.length]? = some ⟨call, statement :: left⟩ := by
    rw [hdelivering.inFlight]
    exact List.getElem?_concat_length
  have hset : state.inFlight.set start.inFlight.length ⟨call, left⟩ =
      start.inFlight ++ [⟨call, left⟩] := by
    rw [hdelivering.inFlight, List.set_append_right _ _ le_rfl, Nat.sub_self]
    rfl
  rw [State.step, State.advance, hget] at hstep
  cases statement with
  | check =>
      have hfound : ((state.buffers call.buffer).findInt32 "fd").isSome = true := by
        rw [MetaBuffer.findInt32, hdelivering.number]
        rfl
      dsimp only at hstep
      rw [if_pos hfound] at hstep
      obtain rfl := Option.some.inj hstep
      refine ⟨hset, hdelivering.sender, hdelivering.net, hdelivering.number, fun tag htag => ?_⟩
      exact hdelivering.started tag (set_not_mem_check htag)
  | set tag =>
      obtain ⟨buffer, hbuffer, rfl⟩ := Option.map_eq_some_iff.mp hstep
      have hfind := findValue_setBuffer (call.set_eq _ tag ▸ hbuffer) call.buffer
      refine ⟨hset, hdelivering.sender, hdelivering.net, ?_, fun label hlabel => ?_⟩
      · exact (hfind "fd").trans
          ((if_neg fun hboth => tag.name_ne_fd hboth.2).trans hdelivering.number)
      · by_cases heq : label = tag
        · subst heq
          exact (hfind label.name).trans (if_pos ⟨rfl, rfl⟩)
        · refine (hfind label.name).trans
            ((if_neg fun hboth => heq (Tag.name_injective hboth.2)).trans ?_)
          exact hdelivering.started label (set_not_mem_set heq hlabel)

/-- A call that no other thread interrupts is `SocketSender::deliver` on a buffer that
carries all its arguments. -/
theorem deliver_steps {layout : Layout} {state final : State} {call : Call}
    (hsocket : state.net.mSocketOf call.transport ≠ -1)
    (hrun : runMachine (State.step layout) state [.deliver call, .advance state.inFlight.length,
      .advance state.inFlight.length, .advance state.inFlight.length,
      .advance state.inFlight.length, .push state.inFlight.length] = some final) :
    final.sender = (state.sender.deliver (some call) true).2 ∧ final.inFlight = state.inFlight ∧
      (final.buffers call.buffer).findInt32 "fd" = some (state.net.mSocketOf call.transport) ∧
        Labelled (final.buffers call.buffer) call := by
  simp only [runMachine_cons, Option.bind_eq_some_iff, runMachine_nil] at hrun
  obtain ⟨first, hfirst, second, hsecond, third, hthird, fourth, hfourth, fifth, hfifth, last,
    hlast, hfinal⟩ := hrun
  have hready := ((((delivering_deliver hsocket hfirst).advance hsecond).advance hthird).advance
    hfourth).advance hfifth
  obtain rfl := Option.some.inj hfinal
  have hget : fifth.inFlight[state.inFlight.length]? = some ⟨call, []⟩ := by
    rw [hready.inFlight]
    exact List.getElem?_concat_length
  rw [State.step, State.push, hget] at hlast
  obtain rfl := Option.some.inj hlast
  refine ⟨?_, ?_, ?_, fun tag => hready.started tag List.not_mem_nil⟩
  · exact congrArg (fun sender => SocketSender.pushBack sender call) hready.sender
  · dsimp only
    rw [hready.inFlight, List.eraseIdx_append_of_length_le le_rfl, Nat.sub_self]
    exact List.append_nil _
  · rw [MetaBuffer.findInt32, hready.number]

end McuProxy.Net.Delivery
