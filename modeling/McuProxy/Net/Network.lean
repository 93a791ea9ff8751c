/-
# Transports, descriptors and the poller

A transport keeps its descriptor twice: `mSocket` of `udpTransport`, and `sock` of
`ITransport`, which the poller and the socket holder look at. `SocketHolder` maps
descriptors to transports, the kernel has a table of the descriptors that are open
and the set of those registered with epoll, and the kernel is free to give the
number of a closed descriptor to the next socket.

Transports are numbered, in no particular order and without end; a number is an
object that was constructed, and `alive` until its last strong reference is given
up. The holder is the partial map that it was shown to be. One of its slots is
taken for good by the wake pipe of the poller, which is not a socket. Whether
`epoll_ctl` succeeds where it can is an input. The callbacks of a transport are
other steps of a run.
-/

import McuProxy.Net.Holder

namespace McuProxy.Net

open McuProxy.Math

/-- The members of a transport that say which descriptor it has. -/
structure Transport where
  mSocket : Int32
  sock : Int32
  alive : Bool
  deriving DecidableEq

/-- The constructors. -/
def Transport.new : Transport := ⟨-1, -1, true⟩

/-- The calls that take a descriptor away. -/
inductive Request
  | close
  | remove
  | ctlDel
  deriving DecidableEq

/-- A call made on behalf of a transport, with the transport whose descriptor the
number was at that moment, if it was one. -/
structure Issue where
  request : Request
  transport : Nat
  sock : Int32
  owner : Option Nat
  deriving DecidableEq

/-- `owner` is the kernel's table: the open descriptors, each with the transport
whose `socket` call returned it. `polled` are those registered with epoll, and
`issued` records the calls made so far. -/
structure Network where
  transports : Nat → Transport
  holder : LimitedMap Int32 Nat
  owner : Int32 → Option Nat
  polled : Int32 → Bool
  issued : List Issue

namespace Network

/-- No transport has been initialised yet. -/
def init : Network where
  transports _ := .new
  holder := .empty (Holder.containerLimit - 1)
  owner _ := none
  polled _ := false
  issued := []

/-- `sock` of a transport. -/
def sockOf (net : Network) (transport : Nat) : Int32 := (net.transports transport).sock

/-- `mSocket` of a transport. -/
def mSocketOf (net : Network) (transport : Nat) : Int32 := (net.transports transport).mSocket

def setSock (net : Network) (transport : Nat) (sock : Int32) : Network :=
  { net with
    transports := Function.update net.transports transport
      { net.transports transport with sock := sock } }

def setMSocket (net : Network) (transport : Nat) (mSocket : Int32) : Network :=
  { net with
    transports := Function.update net.transports transport
      { net.transports transport with mSocket := mSocket } }

/-- The last strong reference is given up. -/
def kill (net : Network) (transport : Nat) : Network :=
  { net with
    transports := Function.update net.transports transport
      { net.transports transport with alive := false } }

def issue (net : Network) (request : Request) (transport : Nat) (sock : Int32) : Network :=
  { net with issued := net.issued ++ [⟨request, transport, sock, net.owner sock⟩] }

/-- A number that `socket` can return: an error, or one that is not open. -/
def Fresh (net : Network) (sock : Int32) : Prop := sock = -1 ∨ 0 ≤ sock ∧ net.owner sock = none

instance (net : Network) (sock : Int32) : Decidable (net.Fresh sock) :=
  inferInstanceAs (Decidable (_ ∨ _))

/-- `socket` returns a descriptor to a transport. -/
def opened (net : Network) (transport : Nat) (sock : Int32) : Network :=
  { net with owner := Function.update net.owner sock (some transport) }

/-- `close`, which takes the descriptor out of the epoll set as well. -/
def close (net : Network) (transport : Nat) (sock : Int32) : Network :=
  { net.issue .close transport sock with
    owner := Function.update net.owner sock none
    polled := Function.update net.polled sock false }

/-- `EPOLL_CTL_ADD` fails for a descriptor that is closed or already there. -/
def ctlAdd (net : Network) (sock : Int32) (ok : Bool) : Bool × Network :=
  if ok && (net.owner sock).isSome && !net.polled sock then
    (true, { net with polled := Function.update net.polled sock true })
  else (false, net)

/-- `EPOLL_CTL_DEL` fails for a descriptor that is closed or not there. -/
def ctlDel (net : Network) (transport : Nat) (sock : Int32) (ok : Bool) : Bool × Network :=
  if ok && (net.owner sock).isSome && net.polled sock then
    (true, { net.issue .ctlDel transport sock with
      polled := Function.update net.polled sock false })
  else (false, net.issue .ctlDel transport sock)

/-- Whether `fetch` hands out a transport for a descriptor. -/
def usable (net : Network) (sock : Int32) (transport : Nat) : Bool :=
  (net.transports transport).alive && net.sockOf transport = sock

def insert (net : Network) (sock : Int32) (transport : Nat) : Network :=
  { net with holder := (Holder.mapInsert net.holder sock transport).2.2 }

def fetch (net : Network) (sock : Int32) : Status × Option Nat × Network :=
  let (err, transport, holder) := Holder.mapFetch net.holder sock (net.usable sock)
  (err, transport, { net with holder := holder })

def remove (net : Network) (transport : Nat) (sock : Int32) : Network :=
  { net.issue .remove transport sock with holder := (Holder.mapRemove net.holder sock).2.2 }

/-- `SocketPoller::AddTransport`. What `insert` returns is not looked at. -/
def addTransport (net : Network) (transport : Nat) (ok : Bool) : Status × Network :=
  if net.sockOf transport = -1 then (.unknownError, net)
  else
    let net := net.insert (net.sockOf transport) transport
    let (added, net) := net.ctlAdd (net.sockOf transport) ok
    (if added then .noError else .unknownError, net)

/-- `SocketPoller::CloseTransport`. -/
def closeTransport (net : Network) (transport : Nat) (ok : Bool) : Status × Network :=
  let sock := net.sockOf transport
  if sock = -1 then (.unknownError, net)
  else
    let net := net.setSock transport (-1)
    let net := net.remove transport sock
    let (deleted, net) := net.ctlDel transport sock ok
    if deleted then (.noError, net.close transport sock) else (.unknownError, net)

/-- The branch of `threadLoop` for an event with `EPOLLHUP` or `EPOLLERR`. -/
def passiveClose (net : Network) (event : Int32) : Network :=
  match net.fetch event with
  | (.noError, some transport, net) =>
      if 0 ≤ net.sockOf transport then
        let net := net.close transport (net.sockOf transport)
        let net := net.remove transport (net.sockOf transport)
        net.setSock transport (-1)
      else net
  | (_, _, net) => net

/-- `Transport::init`. -/
def transportInit (net : Network) (transport : Nat) (ok : Bool) : Status × Network :=
  if net.mSocketOf transport = -1 then (.noInit, net)
  else (net.setSock transport (net.mSocketOf transport)).addTransport transport ok

/-- `udpTransport::init`, for a number that `socket` returns. -/
def udpInit (net : Network) (transport : Nat) (sock : Int32) (ok : Bool) : Status × Network :=
  if net.mSocketOf transport > 2 then (.noError, net)
  else
    let net := net.setMSocket transport sock
    if sock < 0 then (.unknownError, net)
    else
      let (ret, net) := (net.opened transport sock).transportInit transport ok
      -- The fail case flow resets `mSocket` and leaves `sock` as it is.
      if ret ≠ .noError ∧ net.mSocketOf transport > 2 then
        (ret, (net.close transport (net.mSocketOf transport)).setMSocket transport (-1))
      else (ret, net)

/-- The end of a transport: `~Transport` and `~ITransport` both close it. -/
def destroy (net : Network) (transport : Nat) (ok : Bool) : Network :=
  let net := ((net.kill transport).closeTransport transport ok).2
  (net.closeTransport transport ok).2

section

variable (net : Network) (transport : Nat) (sock : Int32) (ok : Bool)

@[simp]
theorem sockOf_setSock (other : Nat) :
    (net.setSock transport sock).sockOf other =
      if other = transport then sock else net.sockOf other := by
  simp only [setSock, sockOf, Function.update_apply]
  split <;> rfl

@[simp]
theorem sockOf_setMSocket (other : Nat) :
    (net.setMSocket transport sock).sockOf other = net.sockOf other := by
  simp only [setMSocket, sockOf, Function.update_apply]
  split
  · rename_i heq
    rw [heq]
  · rfl

@[simp]
theorem sockOf_kill (other : Nat) : (net.kill transport).sockOf other = net.sockOf other := by
  simp only [kill, sockOf, Function.update_apply]
  split
  · rename_i heq
    rw [heq]
  · rfl

@[simp]
theorem mSocketOf_setSock (other : Nat) :
    (net.setSock transport sock).mSocketOf other = net.mSocketOf other := by
  simp only [setSock, mSocketOf, Function.update_apply]
  split
  · rename_i heq
    rw [heq]
  · rfl

@[simp]
theorem mSocketOf_setMSocket (other : Nat) :
    (net.setMSocket transport sock).mSocketOf other =
      if other = transport then sock else net.mSocketOf other := by
  simp only [setMSocket, mSocketOf, Function.update_apply]
  split <;> rfl

@[simp]
theorem alive_setSock (other : Nat) :
    ((net.setSock transport sock).transports other).alive = (net.transports other).alive := by
  simp only [setSock, Function.update_apply]
  split
  · rename_i heq
    rw [heq]
  · rfl

@[simp]
theorem alive_setMSocket (other : Nat) :
    ((net.setMSocket transport sock).transports other).alive = (net.transports other).alive := by
  simp only [setMSocket, Function.update_apply]
  split
  · rename_i heq
    rw [heq]
  · rfl

/-- `EPOLL_CTL_ADD` changes the epoll set only. -/
theorem ctlAdd_frame : ∃ polled, (net.ctlAdd sock ok).2 = { net with polled := polled } := by
  unfold ctlAdd
  split
  · exact ⟨_, rfl⟩
  · exact ⟨net.polled, rfl⟩

/-- So does `EPOLL_CTL_DEL`, which succeeds for an open descriptor only. -/
theorem ctlDel_frame : ∃ polled, (net.ctlDel transport sock ok).2 =
      { net.issue .ctlDel transport sock with polled := polled } ∧
    ((net.ctlDel transport sock ok).1 = true → (net.owner sock).isSome = true) := by
  unfold ctlDel
  split
  · rename_i hdel
    simp only [Bool.and_eq_true] at hdel
    exact ⟨_, rfl, fun _ => hdel.1.2⟩
  · exact ⟨net.polled, rfl, fun hdel => absurd hdel Bool.false_ne_true⟩

/-- `AddTransport` changes the holder and the epoll set. -/
theorem addTransport_frame : ∃ holder polled, (net.addTransport transport ok).2 =
    { net with holder := holder, polled := polled } := by
  unfold addTransport
  split
  · exact ⟨net.holder, net.polled, rfl⟩
  · obtain ⟨polled, hadd⟩ :=
      ctlAdd_frame (net.insert (net.sockOf transport) transport) (net.sockOf transport) ok
    exact ⟨(Holder.mapInsert net.holder (net.sockOf transport) transport).2.2, polled, hadd⟩

/-- With a free slot, an insertion maps the descriptor to the transport. -/
theorem lookup_insert {net : Network} (hroom : net.holder.free ≠ 0) (sock : Int32)
    (transport : Nat) (other : Int32) :
    (net.insert sock transport).holder.lookup other =
      if other = sock then some transport else net.holder.lookup other := by
  rw [insert, Holder.mapInsert, if_neg hroom]
  exact Function.update_apply _ _ _ _

theorem lookup_remove (other : Int32) :
    (net.remove transport sock).holder.lookup other =
      if other = sock then none else net.holder.lookup other := by
  unfold remove Holder.mapRemove
  split
  · rename_i hnone
    split
    · rename_i heq
      exact (congrArg _ heq).trans hnone
    · rfl
  · exact Function.update_apply _ _ _ _

/-- A fetch hands out the transport of the descriptor and changes nothing, or it
fails and at most drops an entry that cannot be used. -/
theorem fetch_cases :
    (∃ transport, net.holder.lookup sock = some transport ∧ net.usable sock transport = true ∧
        net.fetch sock = (.noError, some transport, net)) ∨
      ∃ err taken holder, net.fetch sock = (err, taken, { net with holder := holder }) ∧
        err ≠ .noError ∧
        (holder = net.holder ∨ holder = net.holder.erase sock ∧
          ∃ transport, net.holder.lookup sock = some transport ∧
            ¬ net.usable sock transport = true) := by
  unfold fetch Holder.mapFetch
  cases hlookup : net.holder.lookup sock with
  | none => exact Or.inr ⟨.nameNotFound, none, net.holder, rfl, by decide, Or.inl rfl⟩
  | some transport =>
      by_cases husable : net.usable sock transport = true
      · exact Or.inl ⟨transport, rfl, husable, by simp only [husable, if_true]⟩
      · refine Or.inr ⟨.deadObject, some transport, net.holder.erase sock, ?_, by decide,
          Or.inr ⟨rfl, transport, rfl, husable⟩⟩
        simp only [husable]
        rfl

/-- A fetch changes the holder only. -/
theorem fetch_frame : ∃ holder, (net.fetch sock).2.2 = { net with holder := holder } := ⟨_, rfl⟩

/-- A transport that is mapped and usable is fetched. -/
theorem fetch_of_usable {net : Network} {transport : Nat} {sock : Int32}
    (hlookup : net.holder.lookup sock = some transport)
    (husable : net.usable sock transport = true) :
    net.fetch sock = (.noError, some transport, net) := by
  unfold fetch Holder.mapFetch
  simp only [hlookup, husable, if_true]

theorem sockOf_of_usable {net : Network} {transport : Nat} {sock : Int32}
    (husable : net.usable sock transport = true) : net.sockOf transport = sock := by
  rw [usable, Bool.and_eq_true] at husable
  exact of_decide_eq_true husable.2

/-- What the branch for a passive close does. -/
theorem passiveClose_cases :
    (∃ transport, net.holder.lookup sock = some transport ∧ net.usable sock transport = true ∧
        0 ≤ sock ∧ net.passiveClose sock =
          ((net.close transport sock).remove transport sock).setSock transport (-1)) ∨
      net.passiveClose sock = (net.fetch sock).2.2 := by
  rcases fetch_cases net sock with ⟨transport, hlookup, husable, hfetch⟩ |
    ⟨err, taken, holder, hfetch, herr, -⟩
  · have hsock := sockOf_of_usable husable
    have hclosed : (net.close transport sock).sockOf transport = sock := hsock
    by_cases hpos : 0 ≤ sock
    · refine Or.inl ⟨transport, hlookup, husable, hpos, ?_⟩
      simp only [passiveClose, hfetch, hsock, hclosed, if_pos hpos]
    · refine Or.inr ?_
      simp only [passiveClose, hfetch, hsock, if_neg hpos]
  · refine Or.inr ?_
    rw [passiveClose, hfetch]
    split
    · rename_i heq
      exact absurd (Prod.mk.inj heq).1 herr
    · rename_i heq
      exact (Prod.mk.inj (Prod.mk.inj heq).2).2.symm

/-- `udpTransport::init` up to the registration. -/
def opening : Network :=
  ((net.setMSocket transport sock).opened transport sock).setSock transport sock

@[simp]
theorem sockOf_opening (other : Nat) :
    (net.opening transport sock).sockOf other =
      if other = transport then sock else net.sockOf other := by
  rw [opening, sockOf_setSock]
  split
  · rfl
  · exact sockOf_setMSocket _ _ _ _

@[simp]
theorem alive_opening (other : Nat) :
    ((net.opening transport sock).transports other).alive = (net.transports other).alive := by
  rw [opening, alive_setSock]
  exact alive_setMSocket _ _ _ _

/-- What `udpTransport::init` does. -/
theorem udpInit_cases :
    (net.mSocketOf transport > 2 ∧ (net.udpInit transport sock ok).2 = net) ∨
      (sock < 0 ∧ (net.udpInit transport sock ok).2 = net.setMSocket transport sock) ∨
      ¬ net.mSocketOf transport > 2 ∧ ¬ sock < 0 ∧
        ((net.udpInit transport sock ok).2 =
            ((net.opening transport sock).addTransport transport ok).2 ∨
          (net.udpInit transport sock ok).2 =
            (((net.opening transport sock).addTransport transport ok).2.close transport
              sock).setMSocket transport (-1)) := by
  by_cases hready : net.mSocketOf transport > 2
  · exact Or.inl ⟨hready, by rw [udpInit, if_pos hready]⟩
  by_cases herror : sock < 0
  · refine Or.inr (Or.inl ⟨herror, ?_⟩)
    rw [udpInit, if_neg hready]
    simp only [if_pos herror]
  refine Or.inr (Or.inr ⟨hready, herror, ?_⟩)
  have hsocket : ((net.setMSocket transport sock).opened transport sock).mSocketOf transport =
      sock := (mSocketOf_setMSocket net transport sock transport).trans (if_pos rfl)
  have hne : ¬ sock = -1 := by
    rintro rfl
    exact herror (by decide)
  have hinit : ((net.setMSocket transport sock).opened transport sock).transportInit transport ok =
      (net.opening transport sock).addTransport transport ok := by
    rw [transportInit, hsocket, if_neg hne]
    rfl
  have hkept : ((net.opening transport sock).addTransport transport ok).2.mSocketOf transport =
      sock := by
    obtain ⟨holder, polled, hadd⟩ := addTransport_frame (net.opening transport sock) transport ok
    rw [hadd]
    exact (mSocketOf_setSock _ _ _ _).trans hsocket
  rw [udpInit, if_neg hready]
  simp only [if_neg herror, hinit, hkept]
  split
  · exact Or.inr rfl
  · exact Or.inl rfl

/-- `init` of a transport leaves the others alone. -/
theorem sockOf_udpInit_of_ne {other : Nat} (hne : other ≠ transport) :
    (net.udpInit transport sock ok).2.sockOf other = net.sockOf other := by
  obtain ⟨holder, polled, hadd⟩ := addTransport_frame (net.opening transport sock) transport ok
  have hopening : (net.opening transport sock).sockOf other = net.sockOf other := by
    rw [sockOf_opening, if_neg hne]
  have hadded : ((net.opening transport sock).addTransport transport ok).2.sockOf other =
      net.sockOf other := by
    rw [hadd]
    exact hopening
  rcases udpInit_cases net transport sock ok with ⟨-, heq⟩ | ⟨-, heq⟩ | ⟨-, -, heq | heq⟩
  · rw [heq]
  · rw [heq, sockOf_setMSocket]
  · rw [heq, hadded]
  · rw [heq, sockOf_setMSocket]
    exact hadded

/-- A transport that is closed has no number any more. -/
theorem sockOf_closeTransport (other : Nat) :
    (net.closeTransport transport ok).2.sockOf other =
      if other = transport then -1 else net.sockOf other := by
  simp only [closeTransport]
  split
  · rename_i hsock
    split
    · rename_i heq
      rw [heq, hsock]
    · rfl
  · obtain ⟨polled, hframe, -⟩ := ctlDel_frame
      ((net.setSock transport (-1)).remove transport (net.sockOf transport)) transport
      (net.sockOf transport) ok
    have hsame : (((net.setSock transport (-1)).remove transport (net.sockOf transport)).ctlDel
        transport (net.sockOf transport) ok).2.sockOf other =
          (net.setSock transport (-1)).sockOf other := by
      rw [hframe]
      rfl
    rw [← sockOf_setSock, ← hsame]
    split <;> rfl

theorem sockOf_passiveClose (other : Nat) :
    (net.passiveClose sock).sockOf other = net.sockOf other ∨
      (net.passiveClose sock).sockOf other = -1 := by
  rcases passiveClose_cases net sock with ⟨transport, -, -, -, heq⟩ | heq
  · rw [heq, sockOf_setSock]
    split
    · exact Or.inr rfl
    · exact Or.inl rfl
  · obtain ⟨holder, hfetch⟩ := fetch_frame net sock
    rw [heq, hfetch]
    exact Or.inl rfl

theorem sockOf_udpInit :
    (net.udpInit transport sock ok).2.sockOf transport = net.sockOf transport ∨
      ¬ net.mSocketOf transport > 2 ∧ ¬ sock < 0 ∧
        (net.udpInit transport sock ok).2.sockOf transport = sock := by
  obtain ⟨holder, polled, hadd⟩ := addTransport_frame (net.opening transport sock) transport ok
  have hadded : ((net.opening transport sock).addTransport transport ok).2.sockOf transport =
      sock := by
    rw [hadd]
    exact (sockOf_opening net transport sock transport).trans (if_pos rfl)
  rcases udpInit_cases net transport sock ok with ⟨-, heq⟩ | ⟨-, heq⟩ |
    ⟨hready, herror, heq | heq⟩
  · exact Or.inl (by rw [heq])
  · exact Or.inl (by rw [heq, sockOf_setMSocket])
  · exact Or.inr ⟨hready, herror, by rw [heq, hadded]⟩
  · refine Or.inr ⟨hready, herror, ?_⟩
    rw [heq, sockOf_setMSocket]
    exact hadded

/-- An entry of the holder after `insert` is an old one or the new one. -/
theorem lookup_of_insert {number : Int32} {found : Nat}
    (hfound : (net.insert sock transport).holder.lookup number = some found) :
    net.holder.lookup number = some found ∨ number = sock ∧ found = transport := by
  unfold insert Holder.mapInsert at hfound
  split at hfound
  · exact Or.inl hfound
  · simp only [LimitedMap.insert, Function.update_apply] at hfound
    split at hfound
    · rename_i heq
      exact Or.inr ⟨heq, (Option.some.inj hfound).symm⟩
    · exact Or.inl hfound

theorem lookup_of_remove {number : Int32} {found : Nat}
    (hfound : (net.remove transport sock).holder.lookup number = some found) :
    net.holder.lookup number = some found := by
  rw [lookup_remove] at hfound
  split at hfound
  · cases hfound
  · exact hfound

theorem lookup_of_fetch {number : Int32} {found : Nat}
    (hfound : (net.fetch sock).2.2.holder.lookup number = some found) :
    net.holder.lookup number = some found := by
  rcases fetch_cases net sock with ⟨other, -, -, hfetch⟩ |
    ⟨err, taken, holder, hfetch, -, rfl | ⟨rfl, -⟩⟩
  · rwa [hfetch] at hfound
  · rwa [hfetch] at hfound
  · rw [hfetch] at hfound
    simp only [LimitedMap.erase, Function.update_apply] at hfound
    split at hfound
    · cases hfound
    · exact hfound

theorem lookup_of_addTransport {number : Int32} {found : Nat}
    (hfound : (net.addTransport transport ok).2.holder.lookup number = some found) :
    net.holder.lookup number = some found ∨
      net.sockOf transport ≠ -1 ∧ number = net.sockOf transport ∧ found = transport := by
  unfold addTransport at hfound
  split at hfound
  · exact Or.inl hfound
  · rename_i hsock
    obtain ⟨polled, hadd⟩ :=
      ctlAdd_frame (net.insert (net.sockOf transport) transport) (net.sockOf transport) ok
    have hinsert : (net.insert (net.sockOf transport) transport).holder.lookup number =
        some found := by
      have hsame := congrArg holder hadd
      exact (congrFun (congrArg LimitedMap.lookup hsame) number).symm.trans hfound
    exact (lookup_of_insert net _ _ hinsert).imp_right fun hnew => ⟨hsock, hnew⟩

theorem lookup_of_closeTransport {number : Int32} {found : Nat}
    (hfound : (net.closeTransport transport ok).2.holder.lookup number = some found) :
    net.holder.lookup number = some found := by
  simp only [closeTransport] at hfound
  split at hfound
  · exact hfound
  · obtain ⟨polled, hframe, -⟩ := ctlDel_frame
      ((net.setSock transport (-1)).remove transport (net.sockOf transport)) transport
      (net.sockOf transport) ok
    have hremoved : (net.remove transport (net.sockOf transport)).holder.lookup number =
        some found := by
      split at hfound
      · rw [hframe] at hfound
        exact hfound
      · rw [hframe] at hfound
        exact hfound
    exact lookup_of_remove net _ _ hremoved

theorem lookup_of_passiveClose {number : Int32} {found : Nat}
    (hfound : (net.passiveClose sock).holder.lookup number = some found) :
    net.holder.lookup number = some found := by
  rcases passiveClose_cases net sock with ⟨transport, -, -, -, heq⟩ | heq
  · rw [heq] at hfound
    exact lookup_of_remove (net.close transport sock) transport sock hfound
  · rw [heq] at hfound
    exact lookup_of_fetch net sock hfound

theorem lookup_of_udpInit {number : Int32} {found : Nat}
    (hfound : (net.udpInit transport sock ok).2.holder.lookup number = some found) :
    net.holder.lookup number = some found ∨
      ¬ net.mSocketOf transport > 2 ∧ ¬ sock < 0 ∧ number = sock ∧ found = transport := by
  have hadded (hentry : ((net.opening transport sock).addTransport transport ok).2.holder.lookup
      number = some found) :
      net.holder.lookup number = some found ∨ number = sock ∧ found = transport := by
    rcases lookup_of_addTransport _ _ _ hentry with hold | ⟨-, hnumber, hself⟩
    · exact Or.inl hold
    · rw [sockOf_opening, if_pos rfl] at hnumber
      exact Or.inr ⟨hnumber, hself⟩
  rcases udpInit_cases net transport sock ok with ⟨-, heq⟩ | ⟨-, heq⟩ |
    ⟨hready, herror, heq | heq⟩
  · exact Or.inl (by rwa [heq] at hfound)
  · rw [heq] at hfound
    exact Or.inl hfound
  · rw [heq] at hfound
    exact (hadded hfound).imp_right fun hnew => ⟨hready, herror, hnew⟩
  · rw [heq] at hfound
    exact (hadded hfound).imp_right fun hnew => ⟨hready, herror, hnew⟩

end

end Network

end McuProxy.Net
