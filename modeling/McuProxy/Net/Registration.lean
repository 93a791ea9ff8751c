/-
# Registering a transport

`AddTransport` enters a transport in two tables: the socket holder, where the poller
looks up whom an event is for, and the epoll set, from which the events come. It does
not look at the result of the first entry, and it does not take the first entry back
when the second one fails. `SocketPoller::init`, which enters the wake pipe in the same
two tables, stops when the holder refuses.

So a transport may be polled and not be found, or be found and not be polled, with a
result that says the opposite. Which of these happens can be told from the two tables
before the call and from the outcome of `epoll_ctl`.
-/

import McuProxy.Net.Network

namespace McuProxy.Net.Network

open McuProxy.Math

/-- The transport has a descriptor, under which it can be fetched, and the descriptor is
in the epoll set. -/
def Registered (net : Network) (transport : Nat) : Prop :=
  net.sockOf transport ≠ -1 ∧
    (∃ after, net.fetch (net.sockOf transport) = (.noError, some transport, after)) ∧
    net.polled (net.sockOf transport) = true

/-- `AddTransport` succeeds exactly when the transport is registered afterwards, and
leaves the two tables as they were when it fails. -/
def AllOrNothing (net : Network) (transport : Nat) (ok : Bool) : Prop :=
  let result := net.addTransport transport ok
  (result.1 = .noError ↔ result.2.Registered transport) ∧
    (result.1 ≠ .noError → result.2.holder = net.holder ∧ result.2.polled = net.polled)

/-- The holder maps the descriptor of the transport to the transport. -/
def Mapped (net : Network) (transport : Nat) : Prop :=
  net.holder.lookup (net.sockOf transport) = some transport

/-- `EPOLL_CTL_ADD` succeeds for the descriptor of the transport. -/
def CanPoll (net : Network) (transport : Nat) (ok : Bool) : Prop :=
  ok = true ∧ (net.owner (net.sockOf transport)).isSome = true ∧
    net.polled (net.sockOf transport) = false

instance (net : Network) (transport : Nat) (ok : Bool) : Decidable (net.CanPoll transport ok) :=
  inferInstanceAs (Decidable (_ ∧ _))

/-- The two tables go together: where epoll takes the descriptor, the holder has a free
slot or has the transport already; where epoll does not take it, the holder is full or
has the transport already, and the transport was not in both tables before. -/
def TablesAgree (net : Network) (transport : Nat) (ok : Bool) : Prop :=
  net.sockOf transport ≠ -1 →
    (net.CanPoll transport ok → net.holder.free ≠ 0 ∨ net.Mapped transport) ∧
      (¬ net.CanPoll transport ok → (net.holder.free ≠ 0 → net.Mapped transport) ∧
        ¬ (net.Mapped transport ∧ net.polled (net.sockOf transport) = true))

section

variable {net : Network} {transport : Nat}

/-- A transport that is alive is fetched exactly when the holder maps its descriptor to
it. -/
theorem registered_iff (halive : (net.transports transport).alive = true) :
    net.Registered transport ↔
      net.sockOf transport ≠ -1 ∧ net.Mapped transport ∧
        net.polled (net.sockOf transport) = true := by
  have husable : net.usable (net.sockOf transport) transport = true := by
    simp [usable, halive]
  refine and_congr_right fun _ => and_congr_left fun _ => ⟨?_, ?_⟩
  · rintro ⟨after, hfetch⟩
    rcases fetch_cases net (net.sockOf transport) with ⟨other, hlookup, -, hother⟩ |
      ⟨err, taken, holder, hother, herr, -⟩
    · rw [hother] at hfetch
      obtain ⟨-, hrest⟩ := Prod.mk.inj hfetch
      obtain ⟨hsame, -⟩ := Prod.mk.inj hrest
      exact hlookup.trans hsame
    · rw [hother] at hfetch
      exact absurd (Prod.mk.inj hfetch).1 herr
  · intro hmapped
    exact ⟨net, fetch_of_usable hmapped husable⟩

/-- The holder after `insert`: with a free slot it maps the descriptor to the transport,
else it is as it was. -/
theorem mapped_insert :
    (net.insert (net.sockOf transport) transport).Mapped transport ↔
      net.holder.free ≠ 0 ∨ net.Mapped transport := by
  by_cases hfull : net.holder.free = 0
  · have hsame : net.insert (net.sockOf transport) transport = net := by
      rw [insert, Holder.mapInsert, if_pos hfull]
    rw [hsame]
    simp [hfull]
  · have hlookup := lookup_insert hfull (net.sockOf transport) transport (net.sockOf transport)
    rw [if_pos rfl] at hlookup
    exact iff_of_true hlookup (Or.inl hfull)

/-- `insert` leaves the holder as it was exactly when there is no room, or the transport
is there already. -/
theorem holder_insert_eq_iff :
    (net.insert (net.sockOf transport) transport).holder = net.holder ↔
      (net.holder.free ≠ 0 → net.Mapped transport) := by
  by_cases hfull : net.holder.free = 0
  · rw [insert, Holder.mapInsert, if_pos hfull]
    simp [hfull]
  · have hlookup := lookup_insert hfull (net.sockOf transport) transport
    simp only [ne_eq, hfull, not_false_eq_true, true_imp_iff]
    constructor
    · intro hsame
      have hhere := hlookup (net.sockOf transport)
      rw [hsame, if_pos rfl] at hhere
      exact hhere
    · intro hmapped
      refine LimitedMap.ext (fun other => ?_) ?_
      · rw [hlookup]
        split_ifs with hother
        · rw [hother]
          exact hmapped.symm
        · rfl
      · rw [Mapped] at hmapped
        simp [insert, Holder.mapInsert, hfull, LimitedMap.insert, hmapped]

/-- Both entries. -/
def enter (net : Network) (transport : Nat) : Network :=
  { net.insert (net.sockOf transport) transport with
    polled := Function.update net.polled (net.sockOf transport) true }

/-- What `AddTransport` does to a transport that has a descriptor. -/
theorem addTransport_eq (hsock : net.sockOf transport ≠ -1) (ok : Bool) :
    net.addTransport transport ok =
      if net.CanPoll transport ok then (.noError, net.enter transport)
      else (.unknownError, net.insert (net.sockOf transport) transport) := by
  have hcan : (ok && (net.owner (net.sockOf transport)).isSome &&
      !net.polled (net.sockOf transport)) = true ↔ net.CanPoll transport ok := by
    simp [CanPoll, and_assoc]
  rw [addTransport, if_neg hsock]
  by_cases hpoll : net.CanPoll transport ok
  · rw [if_pos hpoll]
    exact congrArg (fun added : Bool × Network =>
      (if added.1 then Status.noError else .unknownError, added.2)) (if_pos (hcan.mpr hpoll))
  · rw [if_neg hpoll]
    exact congrArg (fun added : Bool × Network =>
      (if added.1 then Status.noError else .unknownError, added.2)) (if_neg (hpoll ∘ hcan.mp))

/-- After both entries the transport is registered if the holder had room. -/
theorem registered_of_polled (halive : (net.transports transport).alive = true)
    (hsock : net.sockOf transport ≠ -1) :
    (net.enter transport).Registered transport ↔
      net.holder.free ≠ 0 ∨ net.Mapped transport := by
  have halive' : ((net.enter transport).transports transport).alive = true := halive
  rw [registered_iff halive']
  refine ⟨fun hregistered => mapped_insert.mp hregistered.2.1, fun hmapped => ?_⟩
  exact ⟨hsock, mapped_insert.mpr hmapped, Function.update_self _ _ _⟩

/-- Without the second entry it is registered if it was in the epoll set before. -/
theorem registered_of_inserted (halive : (net.transports transport).alive = true)
    (hsock : net.sockOf transport ≠ -1) :
    (net.insert (net.sockOf transport) transport).Registered transport ↔
      (net.holder.free ≠ 0 ∨ net.Mapped transport) ∧ net.polled (net.sockOf transport) = true := by
  have halive' : ((net.insert (net.sockOf transport) transport).transports transport).alive =
    true := halive
  rw [registered_iff halive', mapped_insert]
  exact and_iff_right hsock

/-- Registration is all or nothing exactly when the two tables go together. -/
theorem allOrNothing_iff (halive : (net.transports transport).alive = true) (ok : Bool) :
    net.AllOrNothing transport ok ↔ net.TablesAgree transport ok := by
  rw [AllOrNothing, TablesAgree]
  by_cases hsock : net.sockOf transport = -1
  · have hrefused : net.addTransport transport ok = (.unknownError, net) := if_pos hsock
    have hout : ¬ net.Registered transport := fun hregistered => hregistered.1 hsock
    simp [hrefused, hout, hsock]
  by_cases hpoll : net.CanPoll transport ok
  · have hadded : net.addTransport transport ok = (.noError, net.enter transport) := by
      rw [addTransport_eq hsock, if_pos hpoll]
    have hregistered := registered_of_polled halive hsock
    simp [hadded, hregistered, hsock, hpoll]
  · have hadded : net.addTransport transport ok =
        (.unknownError, net.insert (net.sockOf transport) transport) := by
      rw [addTransport_eq hsock, if_neg hpoll]
    have hregistered := registered_of_inserted halive hsock
    have hholder := @holder_insert_eq_iff net transport
    have hpolled : (net.insert (net.sockOf transport) transport).polled = net.polled := rfl
    simp only [hadded, hregistered, hholder, hpolled, reduceCtorEq, false_iff, ne_eq,
      not_false_eq_true, true_imp_iff, and_true, hsock, hpoll, false_imp_iff, true_and]
    constructor
    · rintro ⟨hout, hkept⟩
      exact ⟨hkept, fun hboth => hout ⟨Or.inr hboth.1, hboth.2⟩⟩
    · rintro ⟨hkept, hout⟩
      refine ⟨fun hboth => hout ⟨?_, hboth.2⟩, hkept⟩
      exact hboth.1.elim hkept id

end

/-- Transport 0 has the open descriptor 5, and the holder has `free` slots. -/
def freshTransport (free : Nat) : Network where
  transports := Function.update (fun _ => .new) 0 ⟨5, 5, true⟩
  holder := .empty free
  owner := Function.update (fun _ => none) 5 (some 0)
  polled _ := false
  issued := []

theorem allOrNothing_iff_roomy : (freshTransport 1).AllOrNothing 0 true :=
  (allOrNothing_iff rfl true).mpr fun _ =>
    ⟨fun _ => Or.inl (by decide), fun hpoll => absurd (by decide) hpoll⟩

/-- A full holder: `AddTransport` returns `NO_ERROR`, and nobody finds the transport. With
room and a failing `epoll_ctl` it returns an error and leaves the transport in the
holder. -/
theorem half_registered :
    ¬ (freshTransport 0).AllOrNothing 0 true ∧ ¬ (freshTransport 1).AllOrNothing 0 false := by
  constructor
  · rintro ⟨hresult, -⟩
    obtain ⟨-, ⟨after, hfetch⟩, -⟩ := hresult.mp (by decide)
    have hstatus : _ = Status.noError := congrArg Prod.fst hfetch
    exact absurd hstatus (by decide)
  · rintro ⟨-, hunchanged⟩
    have hholder := congrArg (fun holder => holder.lookup 5) (hunchanged (by decide)).1
    exact absurd hholder (by decide)

end McuProxy.Net.Network
