/-
# Who closes a descriptor

Every descriptor belongs to the transport whose `socket` call returned it. A
transport closes, removes and unregisters by number, and the number it uses is
`sock`. When the registration in `udpTransport::init` fails, `init` closes
`mSocket` and resets it, but `sock` keeps the number. From then on the transport
may act on a descriptor that the kernel has given to another one.

Where no number comes back from the kernel while it is still in `sock` of another
transport, and no event is taken for the number of such a leftover, every call
hits a descriptor of its own transport.
-/

import McuProxy.Math.Machine
import McuProxy.Net.Network

namespace McuProxy.Net

open McuProxy.Math

/-- A call on a transport's own descriptor. A close finds it open, so that it is
the first one of that descriptor; the other two may come late. -/
def Issue.Own (issue : Issue) : Prop :=
  match issue.request with
  | .close => issue.owner = some issue.transport
  | .remove | .ctlDel => issue.owner = none ∨ issue.owner = some issue.transport

instance (issue : Issue) : Decidable issue.Own := by
  unfold Issue.Own
  split <;> infer_instance

namespace Network

/-- An operation on the transports. Each is one atomic step. -/
inductive Op
  | init (transport : Nat) (sock : Int32) (ok : Bool)
  | add (transport : Nat) (ok : Bool)
  | close (transport : Nat) (ok : Bool)
  | passive (event : Int32)
  | destroy (transport : Nat) (ok : Bool)

/-- A step is undefined for a transport that is gone, and for a number that the
kernel cannot return. -/
def step (net : Network) : Op → Option Network
  | .init transport sock ok =>
      if (net.transports transport).alive ∧ net.Fresh sock then
        some (net.udpInit transport sock ok).2
      else none
  | .add transport ok =>
      if (net.transports transport).alive then some (net.addTransport transport ok).2 else none
  | .close transport ok =>
      if (net.transports transport).alive then some (net.closeTransport transport ok).2 else none
  | .passive event => some (net.passiveClose event)
  | .destroy transport ok =>
      if (net.transports transport).alive then some (net.destroy transport ok) else none

/-- The number that `socket` returns is in `sock` of no other transport, and the
transport that an event is for has it open. -/
def NumberUnused (net : Network) : Op → Prop
  | .init transport sock _ =>
      net.mSocketOf transport > 2 ∨ sock = -1 ∨
        ∀ other, other ≠ transport → net.sockOf other ≠ sock
  | .passive event =>
      ∀ transport, net.holder.lookup event = some transport → net.usable event transport = true →
        (net.owner event).isSome
  | _ => True

/-- What a transport has in `sock` is its own descriptor, or a closed one. -/
def OwnsSock (net : Network) : Prop :=
  ∀ transport, net.sockOf transport ≠ -1 →
    net.owner (net.sockOf transport) = none ∨ net.owner (net.sockOf transport) = some transport

/-- The invariant of the runs in which no number is reused too early. -/
structure Proper (net : Network) : Prop where
  ownsSock : net.OwnsSock
  own : ∀ issue ∈ net.issued, issue.Own

namespace Proper

variable {net : Network} {transport : Nat} {sock : Int32}

/-- A call on a descriptor that is the transport's, as the request demands. -/
theorem issue (hproper : net.Proper) (request : Request)
    (hown : Issue.Own ⟨request, transport, sock, net.owner sock⟩) :
    (net.issue request transport sock).Proper where
  ownsSock := hproper.ownsSock
  own := by
    intro issue hissue
    rcases List.mem_append.mp hissue with hold | hnew
    · exact hproper.own issue hold
    · exact List.mem_singleton.mp hnew ▸ hown

/-- The holder and the epoll set do not matter. -/
theorem frame (hproper : net.Proper) (holder : LimitedMap Int32 Nat) (polled : Int32 → Bool) :
    Proper { net with holder := holder, polled := polled } :=
  ⟨hproper.ownsSock, hproper.own⟩

theorem setMSocket (hproper : net.Proper) : (net.setMSocket transport sock).Proper where
  ownsSock other := by
    rw [sockOf_setMSocket]
    exact hproper.ownsSock other
  own := hproper.own

theorem kill (hproper : net.Proper) : (net.kill transport).Proper where
  ownsSock other := by
    rw [sockOf_kill]
    exact hproper.ownsSock other
  own := hproper.own

/-- A transport may forget its number, or take one that it has open. -/
theorem setSock (hproper : net.Proper) (hsock : sock = -1 ∨ net.owner sock = some transport) :
    (net.setSock transport sock).Proper where
  ownsSock other := by
    rw [sockOf_setSock]
    split
    · rename_i heq
      subst heq
      intro hne
      exact Or.inr (hsock.resolve_left hne)
    · exact hproper.ownsSock other
  own := hproper.own

/-- A descriptor is closed for its owner. -/
theorem close (hproper : net.Proper) (hopen : net.owner sock = some transport) :
    (net.close transport sock).Proper where
  ownsSock other hne := by
    by_cases heq : net.sockOf other = sock
    · exact Or.inl ((congrArg _ heq).trans (Function.update_self _ _ _))
    · have hkeep := hproper.ownsSock other hne
      rwa [← Function.update_of_ne heq none net.owner] at hkeep
  own := (hproper.issue .close hopen).own

theorem remove (hproper : net.Proper)
    (hown : net.owner sock = none ∨ net.owner sock = some transport) :
    (net.remove transport sock).Proper :=
  (hproper.issue .remove hown).frame _ net.polled

/-- A number that no other transport keeps in `sock` is given to a transport. -/
theorem opened (hproper : net.Proper)
    (hunused : ∀ other, other ≠ transport → net.sockOf other ≠ sock) :
    (net.opened transport sock).Proper where
  ownsSock other hne := by
    by_cases heq : net.sockOf other = sock
    · obtain rfl : other = transport := by
        by_contra hother
        exact hunused other hother heq
      exact Or.inr ((congrArg _ heq).trans (Function.update_self _ _ _))
    · have hkeep := hproper.ownsSock other hne
      rwa [← Function.update_of_ne heq (some transport) net.owner] at hkeep
  own := hproper.own

theorem addTransport (hproper : net.Proper) (ok : Bool) :
    (net.addTransport transport ok).2.Proper := by
  obtain ⟨holder, polled, hadd⟩ := addTransport_frame net transport ok
  rw [hadd]
  exact hproper.frame holder polled

/-- `CloseTransport` acts on what the transport has in `sock`. Only an open
descriptor can be unregistered, so the close that follows finds it open. -/
theorem closeTransport (hproper : net.Proper) (ok : Bool) :
    (net.closeTransport transport ok).2.Proper := by
  simp only [Network.closeTransport]
  split
  · exact hproper
  · rename_i hsock
    have hown := hproper.ownsSock transport hsock
    obtain ⟨forgot, hforgot⟩ : ∃ forgot, forgot = (net.setSock transport (-1)).remove transport
        (net.sockOf transport) := ⟨_, rfl⟩
    have howner : forgot.owner = net.owner := hforgot ▸ rfl
    have hremoved : forgot.Proper :=
      hforgot ▸ (hproper.setSock (Or.inl rfl)).remove hown
    obtain ⟨polled, hframe, hopen⟩ := ctlDel_frame forgot transport (net.sockOf transport) ok
    have hdeleted : (forgot.ctlDel transport (net.sockOf transport) ok).2.Proper := by
      rw [hframe]
      exact (hremoved.issue .ctlDel (howner ▸ hown)).frame _ polled
    simp only [← hforgot]
    split
    · rename_i hdel
      refine hdeleted.close ?_
      have hisSome := hopen hdel
      rw [howner] at hisSome
      rw [hframe]
      rcases hown with hnone | hsome
      · rw [hnone] at hisSome
        cases hisSome
      · exact (congrFun howner _).trans hsome
    · exact hdeleted

/-- Both destructors close; the second finds nothing to close. -/
theorem destroy (hproper : net.Proper) (ok : Bool) : (net.destroy transport ok).Proper :=
  (hproper.kill.closeTransport ok).closeTransport ok

/-- An event of a transport that has its descriptor open. -/
theorem passiveClose (hproper : net.Proper) {event : Int32}
    (hopen : ∀ transport, net.holder.lookup event = some transport →
      net.usable event transport = true → (net.owner event).isSome) :
    (net.passiveClose event).Proper := by
  rcases passiveClose_cases net event with
    ⟨transport, hlookup, husable, hpos, heq⟩ | heq
  · rw [heq]
    have hsock := sockOf_of_usable husable
    have hisSome := hopen transport hlookup husable
    have hne : event ≠ -1 := by
      rintro rfl
      exact absurd hpos (by decide)
    have howner : net.owner event = some transport := by
      have hown := hproper.ownsSock transport (by rw [hsock]; exact hne)
      rw [hsock] at hown
      rcases hown with hnone | hsome
      · rw [hnone] at hisSome
        cases hisSome
      · exact hsome
    refine ((hproper.close howner).remove (Or.inl ?_)).setSock (Or.inl rfl)
    exact Function.update_self _ _ _
  · obtain ⟨holder, hfetch⟩ := fetch_frame net event
    rw [heq, hfetch]
    exact hproper.frame holder net.polled

/-- A socket that no other transport has a leftover of. -/
theorem udpInit (hproper : net.Proper) (ok : Bool)
    (hunused : net.mSocketOf transport > 2 ∨ sock = -1 ∨
      ∀ other, other ≠ transport → net.sockOf other ≠ sock) :
    (net.udpInit transport sock ok).2.Proper := by
  rcases udpInit_cases net transport sock ok with ⟨hready, heq⟩ | ⟨herror, heq⟩ |
    ⟨hready, herror, hcases⟩
  · rw [heq]
    exact hproper
  · rw [heq]
    exact hproper.setMSocket
  have hothers : ∀ other, other ≠ transport → net.sockOf other ≠ sock := by
    refine (hunused.resolve_left hready).resolve_left ?_
    rintro rfl
    exact herror (by decide)
  have hopening : (net.opening transport sock).Proper := by
    refine Proper.setSock (Proper.opened hproper.setMSocket ?_) (Or.inr ?_)
    · intro other hother
      rw [sockOf_setMSocket]
      exact hothers other hother
    · exact Function.update_self _ _ _
  have hadded : ((net.opening transport sock).addTransport transport ok).2.Proper :=
    hopening.addTransport ok
  rcases hcases with heq | heq
  · rw [heq]
    exact hadded
  · rw [heq]
    refine (hadded.close ?_).setMSocket
    obtain ⟨holder, polled, hadd⟩ := addTransport_frame (net.opening transport sock) transport ok
    rw [hadd]
    exact Function.update_self _ _ _

/-- One operation that reuses no number too early. -/
theorem step {next : Network} (hproper : net.Proper) {op : Op} (hunused : net.NumberUnused op)
    (hstep : net.step op = some next) : next.Proper := by
  cases op with
  | init transport sock ok =>
      obtain ⟨-, hnext⟩ := Option.ite_none_right_eq_some.mp hstep
      exact Option.some.inj hnext ▸ hproper.udpInit ok hunused
  | add transport ok =>
      obtain ⟨-, hnext⟩ := Option.ite_none_right_eq_some.mp hstep
      exact Option.some.inj hnext ▸ hproper.addTransport ok
  | close transport ok =>
      obtain ⟨-, hnext⟩ := Option.ite_none_right_eq_some.mp hstep
      exact Option.some.inj hnext ▸ hproper.closeTransport ok
  | passive event => exact Option.some.inj hstep ▸ hproper.passiveClose hunused
  | destroy transport ok =>
      obtain ⟨-, hnext⟩ := Option.ite_none_right_eq_some.mp hstep
      exact Option.some.inj hnext ▸ hproper.destroy ok

end Proper

theorem init_proper : init.Proper where
  ownsSock _ hne := absurd rfl hne
  own _ hissue := absurd hissue List.not_mem_nil

/-- In a run in which no number is reused too early, every descriptor is closed at
most once, and no transport closes, removes or unregisters the descriptor of
another one. -/
theorem issued_own (ops : List Op) (hunused : Promised step NumberUnused init ops) {final : Network}
    (hrun : runMachine step init ops = some final) : ∀ issue ∈ final.issued, issue.Own :=
  (runMachine_keeps Proper (fun _ _ _ hproper hop hstep => hproper.step hop hstep) init_proper
    hunused hrun).own

/-- The registration of transport 0 fails with descriptor 3. Transport 1 gets
descriptor 4, whose peer closes it, and then transport 0 goes. -/
theorem issued_own_after_failure : ∃ final,
    runMachine step init [.init 0 3 false, .init 1 4 true, .passive 4, .destroy 0 true] =
        some final ∧
      (∀ issue ∈ final.issued, issue.Own) ∧ final.issued.length = 5 := by
  have hfirst : step init (.init 0 3 false) = some (init.udpInit 0 3 false).2 := by
    rw [step, if_pos (by decide)]
  have hsecond : step (init.udpInit 0 3 false).2 (.init 1 4 true) =
      some ((init.udpInit 0 3 false).2.udpInit 1 4 true).2 := by
    rw [step, if_pos (by decide +kernel)]
  have hunused : Promised step NumberUnused init
      [.init 0 3 false, .init 1 4 true, .passive 4, .destroy 0 true] := by
    refine Promised.cons (Or.inr (Or.inr ?_)) hfirst (Promised.cons (Or.inr (Or.inr ?_)) hsecond
      ⟨?_, fun _ _ => ⟨trivial, fun _ _ => trivial⟩⟩)
    · exact fun _ _ => show (-1 : Int32) ≠ 3 by decide
    · intro other _
      by_cases hother : other = 0
      · subst hother
        decide +kernel
      · rw [sockOf_udpInit_of_ne _ _ _ _ hother]
        exact show (-1 : Int32) ≠ 4 by decide
    · intro transport _ _
      decide +kernel
  have hlength : (runMachine step init
      [.init 0 3 false, .init 1 4 true, .passive 4, .destroy 0 true]).map
        (fun final => final.issued.length) = some 5 := by
    decide +kernel
  obtain ⟨final, hfinal, hcount⟩ := Option.map_eq_some_iff.mp hlength
  exact ⟨final, hfinal, issued_own _ hunused hfinal, hcount⟩

/-- The registration of transport 0 fails and its descriptor 3 is closed; then the
kernel gives the number to transport 1. When transport 0 goes, it removes,
unregisters and closes the descriptor of transport 1. -/
theorem reused_number_closed :
    ¬ ∀ (ops : List Op) (final : Network), runMachine step init ops = some final →
      ∀ issue ∈ final.issued, issue.Own := by
  intro hclaim
  have hrun : (runMachine step init [.init 0 3 false, .init 1 3 true, .destroy 0 true]).isSome :=
    by decide +kernel
  obtain ⟨final, hfinal⟩ := Option.isSome_iff_exists.mp hrun
  have hissued :
      (runMachine step init [.init 0 3 false, .init 1 3 true, .destroy 0 true]).map issued =
      some [⟨.close, 0, 3, some 0⟩, ⟨.remove, 0, 3, some 1⟩, ⟨.ctlDel, 0, 3, some 1⟩,
        ⟨.close, 0, 3, some 1⟩] := by
    decide +kernel
  rw [hfinal] at hissued
  have hown := hclaim _ final hfinal ⟨.close, 0, 3, some 1⟩ (by
    rw [Option.some.inj hissued]
    decide)
  exact absurd hown (by decide)

end Network

end McuProxy.Net
