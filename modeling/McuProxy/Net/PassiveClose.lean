/-
# A passive close beside a registration

When a peer goes, the poller's thread closes the descriptor, removes it from the
socket holder and resets `sock`, in this order and without a lock around them.
Between the first two the number is free for the next socket, while the removal is
still to come. `CloseTransport` removes first.

Here the three actions are steps of their own, and so are the three of a thread
that makes a socket and registers it: `socket`, and the two halves of
`AddTransport`. Any number of transports are made by any number of threads. Events
are taken for any number at any time, because a batch may be older than what its
numbers mean now.
-/

import McuProxy.Math.Machine
import McuProxy.Net.Network

namespace McuProxy.Net.PassiveClose

open McuProxy.Math

/-- How far the thread that makes a transport has come. -/
inductive Stage
  | idle
  | created
  | inserted
  | done
  deriving DecidableEq

/-- How far the poller has come with a passive close. -/
inductive Progress
  | fetched
  | closed
  | removed
  deriving DecidableEq

/-- `registered` are the transports whose `AddTransport` returned `NO_ERROR`, with
their numbers, and `closed` those the poller has closed. -/
structure State where
  net : Network
  stage : Nat → Stage
  poller : Option (Nat × Progress)
  registered : List (Nat × Int32)
  closed : List Nat

def init : State := ⟨.init, fun _ => .idle, none, [], []⟩

inductive Step
  | socket (transport : Nat) (sock : Int32)
  | insert (transport : Nat)
  | ctlAdd (transport : Nat) (ok : Bool)
  | event (sock : Int32)
  | close
  | remove
  | reset
  deriving DecidableEq

namespace State

def advance (state : State) (transport : Nat) (stage : Stage) : State :=
  { state with stage := Function.update state.stage transport stage }

/-- A step of some thread; undefined where no thread is there. -/
def step (state : State) : Step → Option State
  | .socket transport sock =>
      if state.stage transport = .idle ∧ 0 ≤ sock ∧ state.net.owner sock = none then
        some ({ state with net := state.net.opening transport sock }.advance transport .created)
      else none
  | .insert transport =>
      if state.stage transport = .created then
        if state.net.sockOf transport = -1 then some (state.advance transport .done)
        else
          some ({ state with
            net := state.net.insert (state.net.sockOf transport) transport }.advance
              transport .inserted)
      else none
  | .ctlAdd transport ok =>
      if state.stage transport = .inserted then
        let sock := state.net.sockOf transport
        let (added, net) := state.net.ctlAdd sock ok
        some ({ state with
          net := net
          registered :=
            if added then (transport, sock) :: state.registered else state.registered }.advance
              transport .done)
      else none
  | .event sock =>
      if state.poller = none then
        let (err, taken, net) := state.net.fetch sock
        match err, taken with
        | .noError, some transport =>
            if 0 ≤ net.sockOf transport then
              some { state with net := net, poller := some (transport, .fetched) }
            else some { state with net := net }
        | _, _ => some { state with net := net }
      else none
  | .close =>
      match state.poller with
      | some (transport, .fetched) =>
          some { state with
            net := state.net.close transport (state.net.sockOf transport)
            poller := some (transport, .closed)
            closed := transport :: state.closed }
      | _ => none
  | .remove =>
      match state.poller with
      | some (transport, .closed) =>
          some { state with
            net := state.net.remove transport (state.net.sockOf transport)
            poller := some (transport, .removed) }
      | _ => none
  | .reset =>
      match state.poller with
      | some (transport, .removed) =>
          some { state with net := state.net.setSock transport (-1), poller := none }
      | _ => none

/-- A transport that was registered and not closed is found under its number. -/
def Found (state : State) : Prop :=
  ∀ transport sock, (transport, sock) ∈ state.registered → transport ∉ state.closed →
    (state.net.fetch sock).1 = .noError ∧ (state.net.fetch sock).2.1 = some transport

/-- A registration that finds a free slot, and not under a number that the poller
has closed and is about to remove. -/
def Undisturbed (state : State) : Step → Prop
  | .insert transport =>
      state.net.sockOf transport = -1 ∨ state.net.holder.free ≠ 0 ∧
        ∀ held ∈ state.poller, held.2 = .closed →
          state.net.sockOf held.1 ≠ state.net.sockOf transport
  | _ => True

instance : ∀ (state : State) (step : Step), Decidable (state.Undisturbed step)
  | _, .insert _ => inferInstanceAs (Decidable (_ ∨ _))
  | _, .socket .. | _, .ctlAdd .. | _, .event _ | _, .close | _, .remove
  | _, .reset => isTrue trivial

/-! ## The invariant -/

/-- The thread that makes a transport has put it into the holder, or has ended. -/
def Entered (state : State) (transport : Nat) : Prop :=
  state.stage transport = .inserted ∨ state.stage transport = .done

/-- A transport that is being registered or is registered under a number. -/
def Live (state : State) (transport : Nat) (sock : Int32) : Prop :=
  state.stage transport = .inserted ∧ state.net.sockOf transport = sock ∨
    (transport, sock) ∈ state.registered

/-- The number is the transport's, for the kernel and for the holder, and no other
transport uses it, apart from one that the poller is about to reset. -/
structure Holds (state : State) (transport : Nat) (sock : Int32) : Prop where
  number : state.net.sockOf transport = sock
  ne : sock ≠ -1
  owner : state.net.owner sock = some transport
  lookup : state.net.holder.lookup sock = some transport
  unique : ∀ other, state.net.sockOf other = sock →
    other = transport ∨ state.poller = some (other, .removed)

structure Inv (state : State) : Prop where
  alive : ∀ transport, (state.net.transports transport).alive = true
  owns : ∀ transport, state.net.sockOf transport ≠ -1 →
    state.net.owner (state.net.sockOf transport) = some transport ∨
      ∃ progress, state.poller = some (transport, progress) ∧ progress ≠ .fetched
  entered : ∀ sock transport, state.net.holder.lookup sock = some transport →
    state.Entered transport
  held : ∀ transport progress, state.poller = some (transport, progress) →
    state.Entered transport ∧ (progress ≠ .fetched → transport ∈ state.closed)
  done : ∀ transport sock, (transport, sock) ∈ state.registered → state.stage transport = .done
  holds : ∀ transport sock, state.Live transport sock → transport ∉ state.closed →
    state.Holds transport sock

/-- A live transport of an invariant state is found. -/
theorem Inv.found {state : State} (hinv : state.Inv) : state.Found := by
  intro transport sock hregistered hopen
  have hholds := hinv.holds transport sock (Or.inr hregistered) hopen
  have husable : state.net.usable sock transport = true := by
    rw [Network.usable, hinv.alive, hholds.number]
    simp
  rw [Network.fetch_of_usable hholds.lookup husable]
  exact ⟨rfl, rfl⟩

/-- What is live keeps its number through a step that leaves it alone. -/
theorem Holds.frame {state next : State} {transport : Nat} {sock : Int32}
    (hholds : state.Holds transport sock)
    (hsock : ∀ other, next.net.sockOf other = sock →
      other = transport ∨ next.poller = some (other, .removed))
    (hself : next.net.sockOf transport = state.net.sockOf transport)
    (howner : next.net.owner sock = state.net.owner sock)
    (hlookup : next.net.holder.lookup sock = state.net.holder.lookup sock) :
    next.Holds transport sock where
  number := hself.trans hholds.number
  ne := hholds.ne
  owner := howner.trans hholds.owner
  lookup := hlookup.trans hholds.lookup
  unique := hsock

section

variable {state next : State}

/-- The poller has one transport at a time. -/
theorem poller_unique {transport other : Nat} {progress progress' : Progress}
    (hpoller : state.poller = some (transport, progress))
    (hother : state.poller = some (other, progress')) : other = transport ∧ progress' = progress :=
  Prod.mk.inj (Option.some.inj (hother.symm.trans hpoller))

/-- While the poller resets nobody, a number that is held is in one `sock` only. -/
theorem Holds.unique_of_poller {transport : Nat} {sock : Int32}
    (hholds : state.Holds transport sock)
    (hpoller : ∀ other, state.poller ≠ some (other, .removed)) {other : Nat}
    (hsock : state.net.sockOf other = sock) : other = transport :=
  (hholds.unique other hsock).resolve_right (hpoller other)

/-- A transport whose thread has not come to the holder is not entered. -/
theorem Entered.ne_of_stage {transport other : Nat} (hentered : state.Entered other)
    (hbefore : state.stage transport = .idle ∨ state.stage transport = .created) :
    other ≠ transport := by
  rintro rfl
  rcases hbefore with hstage | hstage <;>
    rcases hentered with h | h <;> rw [hstage] at h <;> cases h

/-- What the poller has is still entered when nothing else is lost. -/
theorem Inv.held_of_entered (hinv : state.Inv) (hpoller : next.poller = state.poller)
    (hclosed : next.closed = state.closed)
    (hkeep : ∀ other, state.Entered other → next.Entered other) (other : Nat) (progress : Progress)
    (hheld : next.poller = some (other, progress)) :
    next.Entered other ∧ (progress ≠ .fetched → other ∈ next.closed) := by
  obtain ⟨hentered, hin⟩ := hinv.held other progress (hpoller.symm.trans hheld)
  rw [hclosed]
  exact ⟨hkeep other hentered, hin⟩

@[simp]
theorem stage_advance (state : State) (transport other : Nat) (stage : Stage) :
    (state.advance transport stage).stage other =
      if other = transport then stage else state.stage other :=
  Function.update_apply _ _ _ _

@[simp]
theorem net_advance (state : State) (transport : Nat) (stage : Stage) :
    (state.advance transport stage).net = state.net := rfl

/-- A thread that goes on has not lost its transport. -/
theorem Entered.advance {transport other : Nat} {stage : Stage} (net : Network)
    (hentered : state.Entered other)
    (hstage : other = transport → stage = .inserted ∨ stage = .done) :
    ({ state with net := net }.advance transport stage).Entered other := by
  unfold Entered at *
  rw [stage_advance]
  split
  · rename_i heq
    exact hstage heq
  · exact hentered

/-- A thread that goes on before its transport is entered changes no registration. -/
theorem Inv.done_advance (hinv : state.Inv) {transport : Nat}
    (hother : ∀ other, state.Entered other → other ≠ transport) (net : Network) (stage : Stage)
    (other : Nat) (number : Int32) (hregistered : (other, number) ∈ state.registered) :
    ({ state with net := net }.advance transport stage).stage other = .done := by
  have hdone := hinv.done other number hregistered
  rw [stage_advance, if_neg (hother other (Or.inr hdone))]
  exact hdone

/-- What is live after a thread has gone on from before the holder was. -/
theorem Live.of_advance {transport other : Nat} {number : Int32} {stage : Stage} (net : Network)
    (hlive : ({ state with net := net }.advance transport stage).Live other number)
    (hne : other ≠ transport) (hsock : net.sockOf other = state.net.sockOf other) :
    state.Live other number := by
  refine hlive.imp_left ?_
  rintro ⟨hstage, hnumber⟩
  rw [stage_advance, if_neg hne] at hstage
  rw [net_advance, hsock] at hnumber
  exact ⟨hstage, hnumber⟩

/-- The new socket has a number that nobody else holds. -/
theorem Inv.socket (hinv : state.Inv) {transport : Nat} {sock : Int32}
    (hstep : state.step (.socket transport sock) = some next) : next.Inv := by
  obtain ⟨⟨hidle, hpos, hclosed⟩, hnext⟩ := Option.ite_none_right_eq_some.mp hstep
  obtain rfl := Option.some.inj hnext
  have hother : ∀ other, state.Entered other → other ≠ transport :=
    fun other hentered => hentered.ne_of_stage (Or.inl hidle)
  have hkeep : ∀ other, state.Entered other →
      ({ state with net := state.net.opening transport sock }.advance transport .created).Entered
        other := fun other hentered =>
    hentered.advance _ fun heq => absurd heq (hother other hentered)
  have howner : (state.net.opening transport sock).owner =
      Function.update state.net.owner sock (some transport) := rfl
  refine ⟨?_, ?_, ?_, ?_, ?_, ?_⟩
  · intro other
    exact (Network.alive_opening _ _ _ _).trans (hinv.alive other)
  · intro other hne
    simp only [advance, Network.sockOf_opening, howner] at hne ⊢
    by_cases heq : other = transport
    · rw [if_pos heq, heq, Function.update_self]
      exact Or.inl rfl
    · rw [if_neg heq] at hne ⊢
      rcases hinv.owns other hne with hown | hheld
      · refine Or.inl ?_
        rwa [Function.update_of_ne]
        intro hsame
        rw [hsame, hclosed] at hown
        cases hown
      · exact Or.inr hheld
  · exact fun number other hlookup => hkeep other (hinv.entered number other hlookup)
  · exact hinv.held_of_entered rfl rfl hkeep
  · exact hinv.done_advance hother _ _
  · intro other number hlive hopen
    have hne : other ≠ transport := by
      rintro rfl
      rcases hlive with ⟨hstage, -⟩ | hregistered
      · rw [stage_advance, if_pos rfl] at hstage
        cases hstage
      · exact hother other (Or.inr (hinv.done other number hregistered)) rfl
    have hsock : (state.net.opening transport sock).sockOf other = state.net.sockOf other := by
      rw [Network.sockOf_opening, if_neg hne]
    have hholds := hinv.holds other number (hlive.of_advance _ hne hsock) hopen
    have hfree : number ≠ sock := by
      rintro rfl
      have howned := hholds.owner
      rw [hclosed] at howned
      cases howned
    refine hholds.frame ?_ hsock (Function.update_of_ne hfree _ _) rfl
    intro third hthird
    rw [net_advance, Network.sockOf_opening] at hthird
    split at hthird
    · exact absurd hthird.symm hfree
    · exact hholds.unique third hthird

/-- A transport that was closed before its registration is not registered. -/
theorem Inv.giveUp (hinv : state.Inv) {transport : Nat}
    (hother : ∀ other, state.Entered other → other ≠ transport) :
    (state.advance transport .done).Inv := by
  have hkeep : ∀ other, state.Entered other → (state.advance transport .done).Entered other :=
    fun other hentered => Entered.advance state.net hentered fun _ => Or.inr rfl
  refine ⟨hinv.alive, hinv.owns, ?_, ?_, ?_, ?_⟩
  · exact fun number other hlookup => hkeep other (hinv.entered number other hlookup)
  · exact hinv.held_of_entered rfl rfl hkeep
  · exact hinv.done_advance hother _ _
  · intro other number hlive hopen
    have hne : other ≠ transport := by
      rintro rfl
      rcases hlive with ⟨hstage, -⟩ | hregistered
      · rw [stage_advance, if_pos rfl] at hstage
        cases hstage
      · exact hother other (Or.inr (hinv.done other number hregistered)) rfl
    have hholds := hinv.holds other number (Live.of_advance state.net hlive hne rfl) hopen
    exact hholds.frame hholds.unique rfl rfl rfl

/-- A registration that is not disturbed puts the transport into the holder. -/
theorem Inv.insert (hinv : state.Inv) {transport : Nat}
    (hundisturbed : state.Undisturbed (.insert transport))
    (hstep : state.step (.insert transport) = some next) : next.Inv := by
  obtain ⟨hcreated, hnext⟩ := Option.ite_none_right_eq_some.mp hstep
  have hother : ∀ other, state.Entered other → other ≠ transport :=
    fun other hentered => hentered.ne_of_stage (Or.inr hcreated)
  split at hnext
  · exact Option.some.inj hnext ▸ hinv.giveUp hother
  · rename_i hsock
    obtain rfl := Option.some.inj hnext
    obtain ⟨hroom, hquiet⟩ := hundisturbed.resolve_left hsock
    have hkeep : ∀ other, state.Entered other →
        ({ state with net := state.net.insert (state.net.sockOf transport) transport }.advance
          transport .inserted).Entered other := fun other hentered =>
      hentered.advance _ fun _ => Or.inl rfl
    have hlookup := Network.lookup_insert hroom (state.net.sockOf transport) transport
    refine ⟨hinv.alive, hinv.owns, ?_, ?_, ?_, ?_⟩
    · intro number other hfound
      rw [net_advance, hlookup] at hfound
      split at hfound
      · obtain rfl := Option.some.inj hfound
        exact Or.inl (by rw [stage_advance, if_pos rfl])
      · exact hkeep other (hinv.entered number other hfound)
    · exact hinv.held_of_entered rfl rfl hkeep
    · exact hinv.done_advance hother _ _
    · intro other number hlive hopen
      by_cases heq : other = transport
      · subst heq
        have hnumber : state.net.sockOf other = number := by
          rcases hlive with ⟨-, hnumber⟩ | hregistered
          · exact hnumber
          · exact absurd rfl (hother other (Or.inr (hinv.done other number hregistered)))
        subst hnumber
        -- Who else has the number in `sock` has been closed by the poller.
        have hunheld : ∀ progress, state.poller ≠ some (other, progress) := fun progress hpoller =>
          hother other (hinv.held other progress hpoller).1 rfl
        have howner : state.net.owner (state.net.sockOf other) = some other := by
          rcases hinv.owns other hsock with hown | ⟨progress, hpoller, -⟩
          · exact hown
          · exact absurd hpoller (hunheld progress)
        refine ⟨rfl, hsock, howner, ?_, ?_⟩
        · rw [net_advance, hlookup, if_pos rfl]
        · intro third hthird
          have hthird' : state.net.sockOf third = state.net.sockOf other := hthird
          rcases hinv.owns third (hthird' ▸ hsock) with hown | ⟨progress, hpoller, hprogress⟩
          · rw [hthird', howner] at hown
            exact Or.inl (Option.some.inj hown).symm
          · cases progress with
            | fetched => exact absurd rfl hprogress
            | closed => exact absurd hthird' (hquiet (third, .closed) hpoller rfl)
            | removed => exact Or.inr hpoller
      · have hholds := hinv.holds other number (hlive.of_advance _ heq rfl) hopen
        refine hholds.frame hholds.unique rfl rfl ?_
        rw [net_advance, hlookup, if_neg]
        intro hsame
        rcases hholds.unique transport hsame.symm with hself | hheld
        · exact heq hself.symm
        · exact hother transport (hinv.held transport _ hheld).1 rfl

/-- The end of a registration. -/
theorem Inv.ctlAdd (hinv : state.Inv) {transport : Nat} {ok : Bool}
    (hstep : state.step (.ctlAdd transport ok) = some next) : next.Inv := by
  rw [step] at hstep
  obtain ⟨hinserted, hnext⟩ := Option.ite_none_right_eq_some.mp hstep
  obtain ⟨polled, hframe⟩ := Network.ctlAdd_frame state.net (state.net.sockOf transport) ok
  obtain ⟨⟨added, net⟩, hadd⟩ : ∃ result,
    state.net.ctlAdd (state.net.sockOf transport) ok = result := ⟨_, rfl⟩
  rw [hadd] at hframe
  simp only [hadd] at hnext
  obtain rfl : net = { state.net with polled := polled } := hframe
  obtain rfl := Option.some.inj hnext
  have hkeep : ∀ other, state.Entered other → (state.advance transport .done).Entered other :=
    fun other hentered => Entered.advance state.net hentered fun _ => Or.inr rfl
  -- What is registered now was being registered before.
  have hlive : ∀ other number, (other, number) ∈ (if added then
      (transport, state.net.sockOf transport) :: state.registered else state.registered) →
      (other = transport ∨ (other, number) ∈ state.registered) ∧ state.Live other number := by
    intro other number hregistered
    split at hregistered
    · rcases List.mem_cons.mp hregistered with heq | hold
      · obtain ⟨rfl, rfl⟩ := Prod.mk.inj heq
        exact ⟨Or.inl rfl, Or.inl ⟨hinserted, rfl⟩⟩
      · exact ⟨Or.inr hold, Or.inr hold⟩
    · exact ⟨Or.inr hregistered, Or.inr hregistered⟩
  refine ⟨hinv.alive, hinv.owns, ?_, ?_, ?_, ?_⟩
  · exact fun number other hlookup => hkeep other (hinv.entered number other hlookup)
  · exact hinv.held_of_entered rfl rfl hkeep
  · intro other number hregistered
    rw [stage_advance]
    split
    · rfl
    · rename_i hne
      exact hinv.done other number ((hlive other number hregistered).1.resolve_left hne)
  · intro other number hnow hopen
    have hbefore : state.Live other number := by
      rcases hnow with ⟨hstage, hnumber⟩ | hregistered
      · rw [stage_advance] at hstage
        split at hstage
        · cases hstage
        · exact Or.inl ⟨hstage, hnumber⟩
      · exact (hlive other number hregistered).2
    have hholds := hinv.holds other number hbefore hopen
    exact hholds.frame hholds.unique rfl rfl rfl

/-- A fetch that fails drops no transport that holds its number. -/
theorem Inv.lookup_drop (hinv : state.Inv) {sock : Int32} {holder : LimitedMap Int32 Nat}
    (hholder : holder = state.net.holder ∨ holder = state.net.holder.erase sock ∧
      ∃ transport, state.net.holder.lookup sock = some transport ∧
        ¬ state.net.usable sock transport = true) :
    (∀ number other, holder.lookup number = some other →
        state.net.holder.lookup number = some other) ∧
      ∀ other number, state.Holds other number →
        holder.lookup number = state.net.holder.lookup number := by
  rcases hholder with rfl | ⟨rfl, transport, hlookup, hunusable⟩
  · exact ⟨fun _ _ hfound => hfound, fun _ _ _ => rfl⟩
  · constructor
    · intro number other hfound
      simp only [LimitedMap.erase, Function.update_apply] at hfound
      split at hfound
      · cases hfound
      · exact hfound
    · intro other number hholds
      refine Function.update_of_ne ?_ _ _
      rintro rfl
      obtain rfl := Option.some.inj (hlookup.symm.trans hholds.lookup)
      refine hunusable ?_
      rw [Network.usable, hinv.alive, hholds.number]
      simp

/-- An event is taken by the poller. -/
theorem Inv.event (hinv : state.Inv) {sock : Int32}
    (hstep : state.step (.event sock) = some next) : next.Inv := by
  rw [step] at hstep
  obtain ⟨hfree, hnext⟩ := Option.ite_none_right_eq_some.mp hstep
  have howns : ∀ transport, state.net.sockOf transport ≠ -1 →
      state.net.owner (state.net.sockOf transport) = some transport := by
    intro transport hne
    rcases hinv.owns transport hne with hown | ⟨progress, hpoller, -⟩
    · exact hown
    · rw [hfree] at hpoller
      cases hpoller
  have hidle : ∀ other, state.poller ≠ some (other, .removed) := by
    intro other hheld
    rw [hfree] at hheld
    cases hheld
  rcases Network.fetch_cases state.net sock with ⟨transport, hlookup, husable, hfetch⟩ |
    ⟨err, taken, holder, hfetch, herr, hholder⟩
  · rw [hfetch] at hnext
    dsimp only at hnext
    split at hnext
    · obtain rfl := Option.some.inj hnext
      refine ⟨hinv.alive, fun other hne => Or.inl (howns other hne), hinv.entered, ?_, hinv.done,
        ?_⟩
      · rintro other progress hpoller
        obtain ⟨rfl, rfl⟩ := Prod.mk.inj (Option.some.inj hpoller)
        exact ⟨hinv.entered sock transport hlookup, fun hne => absurd rfl hne⟩
      · intro other number hlive hopen
        have hholds := hinv.holds other number hlive hopen
        exact hholds.frame (fun third hthird => Or.inl (hholds.unique_of_poller hidle hthird))
          rfl rfl rfl
    · exact Option.some.inj hnext ▸ hinv
  · rw [hfetch] at hnext
    have hnext' : some { state with net := { state.net with holder := holder } } = some next := by
      rw [← hnext]
      cases err <;> first | exact absurd rfl herr | rfl
    obtain rfl := Option.some.inj hnext'
    obtain ⟨hfewer, hkept⟩ := hinv.lookup_drop hholder
    refine ⟨hinv.alive, hinv.owns, ?_, hinv.held, hinv.done, ?_⟩
    · exact fun number other hfound => hinv.entered number other (hfewer number other hfound)
    · intro other number hlive hopen
      have hholds := hinv.holds other number hlive hopen
      exact hholds.frame hholds.unique rfl rfl (hkept other number hholds)

/-- The close of the poller's transport. -/
theorem Inv.close (hinv : state.Inv) (hstep : state.step .close = some next) : next.Inv := by
  rw [step] at hstep
  split at hstep
  · rename_i transport hpoller
    obtain rfl := Option.some.inj hstep
    have hidle : ∀ other, state.poller ≠ some (other, .removed) := fun other hheld =>
      absurd (poller_unique hpoller hheld).2 (by decide)
    refine ⟨hinv.alive, ?_, hinv.entered, ?_, hinv.done, ?_⟩
    · intro other hne
      by_cases heq : other = transport
      · exact Or.inr ⟨.closed, by rw [heq], by decide⟩
      · have hown : state.net.owner (state.net.sockOf other) = some other := by
          rcases hinv.owns other hne with hown | ⟨progress, hheld, hprogress⟩
          · exact hown
          · exact absurd (poller_unique hpoller hheld).2 hprogress
        refine Or.inl ((Function.update_of_ne ?_ _ _).trans hown)
        intro hsame
        rcases hinv.owns transport (hsame ▸ hne) with hself | ⟨progress, hheld, hprogress⟩
        · have hown' : state.net.owner (state.net.sockOf transport) = some other := hsame ▸ hown
          exact heq (Option.some.inj (hown'.symm.trans hself))
        · exact absurd (poller_unique hpoller hheld).2 hprogress
    · intro other progress hheld
      obtain ⟨rfl, rfl⟩ := Prod.mk.inj (Option.some.inj hheld)
      exact ⟨(hinv.held transport .fetched hpoller).1, fun _ => List.mem_cons_self⟩
    · intro other number hlive hopen
      have hbefore : other ∉ state.closed := fun hin => hopen (List.mem_cons_of_mem _ hin)
      have hne : other ≠ transport := fun heq => hopen (heq ▸ List.mem_cons_self)
      have hholds := hinv.holds other number hlive hbefore
      refine hholds.frame (fun third hthird => Or.inl (hholds.unique_of_poller hidle hthird)) rfl ?_
        rfl
      refine Function.update_of_ne (fun hsame => hne ?_) _ _
      exact (hholds.unique_of_poller hidle hsame.symm).symm
  · cases hstep

/-- The removal hits no transport that holds the number. -/
theorem Inv.remove (hinv : state.Inv) (hstep : state.step .remove = some next) : next.Inv := by
  rw [step] at hstep
  split at hstep
  · rename_i transport hpoller
    obtain rfl := Option.some.inj hstep
    have hidle : ∀ other, state.poller ≠ some (other, .removed) := fun other hheld =>
      absurd (poller_unique hpoller hheld).2 (by decide)
    obtain ⟨hentered, hin⟩ := hinv.held transport .closed hpoller
    have hlookup := Network.lookup_remove state.net transport (state.net.sockOf transport)
    refine ⟨hinv.alive, ?_, ?_, ?_, hinv.done, ?_⟩
    · intro other hne
      rcases hinv.owns other hne with hown | ⟨progress, hheld, -⟩
      · exact Or.inl hown
      · exact Or.inr ⟨.removed, by rw [(poller_unique hpoller hheld).1], by decide⟩
    · intro number other hfound
      dsimp only at hfound
      rw [hlookup] at hfound
      split at hfound
      · cases hfound
      · exact hinv.entered number other hfound
    · intro other progress hheld
      obtain ⟨rfl, rfl⟩ := Prod.mk.inj (Option.some.inj hheld)
      exact ⟨hentered, fun _ => hin (by decide)⟩
    · intro other number hlive hopen
      have hholds := hinv.holds other number hlive hopen
      refine hholds.frame
        (fun third hthird => Or.inl (hholds.unique_of_poller hidle hthird)) rfl rfl
        ?_
      dsimp only
      rw [hlookup, if_neg]
      intro hsame
      exact hopen (hholds.unique_of_poller hidle hsame.symm ▸ hin (by decide))
  · cases hstep

theorem Inv.reset (hinv : state.Inv) (hstep : state.step .reset = some next) : next.Inv := by
  rw [step] at hstep
  split at hstep
  · rename_i transport hpoller
    obtain rfl := Option.some.inj hstep
    obtain ⟨-, hin⟩ := hinv.held transport .removed hpoller
    have hsock := Network.sockOf_setSock state.net transport (-1)
    refine ⟨?_, ?_, hinv.entered, ?_, hinv.done, ?_⟩
    · intro other
      exact (Network.alive_setSock _ _ _ _).trans (hinv.alive other)
    · intro other hne
      dsimp only at hne ⊢
      rw [hsock] at hne ⊢
      split at hne
      · exact absurd rfl hne
      · rename_i hother
        rw [if_neg hother]
        rcases hinv.owns other hne with hown | ⟨progress, hheld, -⟩
        · exact Or.inl hown
        · exact absurd (poller_unique hpoller hheld).1 hother
    · intro other progress hheld
      cases hheld
    · intro other number hlive hopen
      have hother : other ≠ transport := fun heq => hopen (heq ▸ hin (by decide))
      have hsame : (state.net.setSock transport (-1)).sockOf other = state.net.sockOf other := by
        rw [hsock, if_neg hother]
      have hbefore : state.Live other number :=
        hlive.imp_left fun ⟨hstage, hnumber⟩ => ⟨hstage, hsame.symm.trans hnumber⟩
      have hholds := hinv.holds other number hbefore hopen
      refine hholds.frame ?_ hsame rfl rfl
      intro third hthird
      dsimp only at hthird
      rw [hsock] at hthird
      split at hthird
      · exact absurd hthird.symm hholds.ne
      · rename_i hne
        rcases hholds.unique third hthird with heq | hheld
        · exact Or.inl heq
        · exact absurd (poller_unique hpoller hheld).1 hne
  · cases hstep

/-- One step of either thread. -/
theorem Inv.step (hinv : state.Inv) {step : Step} (hundisturbed : state.Undisturbed step)
    (hstep : state.step step = some next) : next.Inv := by
  cases step with
  | socket transport sock => exact hinv.socket hstep
  | insert transport => exact hinv.insert hundisturbed hstep
  | ctlAdd transport ok => exact hinv.ctlAdd hstep
  | event sock => exact hinv.event hstep
  | close => exact hinv.close hstep
  | remove => exact hinv.remove hstep
  | reset => exact hinv.reset hstep

end

theorem init_inv : State.Inv PassiveClose.init where
  alive _ := rfl
  owns _ hne := absurd rfl hne
  entered _ _ hlookup := by cases hlookup
  held _ _ hpoller := by cases hpoller
  done _ _ hregistered := absurd hregistered List.not_mem_nil
  holds _ _ hlive _ := by
    rcases hlive with ⟨hstage, -⟩ | hregistered
    · cases hstage
    · exact absurd hregistered List.not_mem_nil

end State

/-- In a run without a registration under a number that the poller is about to
remove, and with room in the holder, no transport is lost. -/
theorem registered_found (steps : List Step)
    (hundisturbed : Promised State.step State.Undisturbed init steps) {final : State}
    (hrun : runMachine State.step init steps = some final) : final.Found :=
  (runMachine_keeps State.Inv (fun _ _ _ hinv hstep hnext => hinv.step hstep hnext) State.init_inv
    hundisturbed hrun).found

/-- Transport 1 gets the number of transport 0 while the poller closes that one, and
is registered after the removal. -/
theorem registered_found_after_removal : ∃ final,
    runMachine State.step init [.socket 0 5, .insert 0, .ctlAdd 0 true, .event 5, .close,
        .socket 1 5, .remove, .insert 1, .ctlAdd 1 true, .reset] = some final ∧
      final.Found ∧ final.registered = [(1, 5), (0, 5)] ∧ final.closed = [0] := by
  have hrun : (runMachine State.step init [.socket 0 5, .insert 0, .ctlAdd 0 true, .event 5, .close,
      .socket 1 5, .remove, .insert 1, .ctlAdd 1 true, .reset]).map
        (fun final => (final.registered, final.closed)) = some ([(1, 5), (0, 5)], [0]) := by
    decide +kernel
  obtain ⟨final, hfinal, heq⟩ := Option.map_eq_some_iff.mp hrun
  exact ⟨final, hfinal, registered_found _ (by decide +kernel) hfinal, (Prod.mk.inj heq).1,
    (Prod.mk.inj heq).2⟩

/-- Transport 1 is registered between the close and the removal. The removal takes
its entry, and its descriptor is not found any more. -/
theorem newcomer_unregistered :
    ¬ ∀ (steps : List Step) (final : State), runMachine State.step init steps = some final →
      final.Found := by
  intro hclaim
  have hrun : (runMachine State.step init [.socket 0 5, .insert 0, .ctlAdd 0 true, .event 5, .close,
      .socket 1 5, .insert 1, .ctlAdd 1 true, .remove]).map
        (fun final => (final.registered, final.closed, (final.net.fetch 5).1)) =
      some ([(1, 5), (0, 5)], [0], .nameNotFound) := by
    decide +kernel
  obtain ⟨final, hfinal, heq⟩ := Option.map_eq_some_iff.mp hrun
  obtain ⟨hregistered, hrest⟩ := Prod.mk.inj heq
  obtain ⟨hclosed, hfetch⟩ := Prod.mk.inj hrest
  have hfound := (hclaim _ final hfinal 1 5 (by rw [hregistered]; decide)
    (by rw [hclosed]; decide)).1
  rw [hfetch] at hfound
  cases hfound

/-! ## The calls in one piece -/

/-- The two halves of `AddTransport` are `AddTransport`, and what they register is
what it returns `NO_ERROR` for. -/
theorem addTransport_steps {state : State} {transport : Nat} {ok : Bool}
    (hcreated : state.stage transport = .created) (hsock : state.net.sockOf transport ≠ -1) :
    ∃ final, runMachine State.step state [.insert transport, .ctlAdd transport ok] = some final ∧
      final.net = (state.net.addTransport transport ok).2 ∧
      final.registered =
        if (state.net.addTransport transport ok).1 = .noError then
          (transport, state.net.sockOf transport) :: state.registered
        else state.registered := by
  obtain ⟨inserted, hinserted⟩ : ∃ inserted, inserted =
    ({ state with net := state.net.insert (state.net.sockOf transport) transport } :
      State).advance transport .inserted := ⟨_, rfl⟩
  have hinsert : state.step (.insert transport) = some inserted := by
    rw [State.step, if_pos hcreated, if_neg hsock, hinserted]
  have hstage : inserted.stage transport = .inserted := by
    rw [hinserted, State.stage_advance, if_pos rfl]
  have hnet : inserted.net = state.net.insert (state.net.sockOf transport) transport := by
    rw [hinserted]
    rfl
  obtain ⟨⟨added, net⟩, hadd⟩ : ∃ result,
    inserted.net.ctlAdd (state.net.sockOf transport) ok = result := ⟨_, rfl⟩
  have hsame : inserted.net.sockOf transport = state.net.sockOf transport := by
    rw [hnet]
    rfl
  have hcall : state.net.addTransport transport ok =
      (if added then .noError else .unknownError, net) := by
    rw [Network.addTransport, if_neg hsock, ← hnet]
    simp only [hsame, hadd]
  refine ⟨_, by rw [runMachine_cons, hinsert, Option.bind_some, runMachine_cons, State.step,
    if_pos hstage, Option.bind_some, runMachine_nil], ?_, ?_⟩
  · rw [hcall, State.net_advance]
    simp only [hsame, hadd]
  · rw [hcall]
    have hregistered : inserted.registered = state.registered := by
      rw [hinserted]
      rfl
    simp only [State.advance, hsame, hadd, hregistered]
    cases added <;> rfl

/-- The three actions of a passive close are the branch of `threadLoop`. -/
theorem passiveClose_steps {state : State} {transport : Nat} {sock : Int32}
    (hfree : state.poller = none) (hlookup : state.net.holder.lookup sock = some transport)
    (husable : state.net.usable sock transport = true) (hpos : 0 ≤ sock) :
    ∃ final, runMachine State.step state [.event sock, .close, .remove, .reset] = some final ∧
      final.net = state.net.passiveClose sock := by
  have hsock := Network.sockOf_of_usable husable
  have hfetch := Network.fetch_of_usable hlookup husable
  have hclosed : (state.net.close transport sock).sockOf transport = sock := hsock
  have hevent : state.step (.event sock) =
      some { state with poller := some (transport, .fetched) } := by
    rw [State.step, if_pos hfree, hfetch]
    simp only [hsock, if_pos hpos]
  refine ⟨_, by rw [runMachine_cons, hevent]; rfl, ?_⟩
  simp only [Network.passiveClose, hfetch, hsock, hclosed, if_pos hpos]

end McuProxy.Net.PassiveClose
