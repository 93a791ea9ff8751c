/-
# Tokens name events

A caller knows an event only by its token. `addAbsTimedEvent` publishes the unit
and issues its token in one critical section, but `addLaterEvent` and
`addPeriodEvent` do so in two, and the section of another thread may come
between them: it finds a unit in the list whose token field is whatever the
allocator left there, and an alarm may even destroy the unit before the second
section writes to it. The counter of tokens wraps after `2 ^ 28` of them, while
a periodic unit has no last alarm.

Every add call reads the token that it returns from its unit, after its last
section and without the mutex. An alarm may have destroyed the unit by then, and the
block may hold the unit of another call: what is read is then anything.

The law below is what a caller relies on at each step, and `Serial` is what the
order of the steps has to provide for it: nobody enters between the two sections
of a call, no token is issued while a live unit has it, and a cancellation that finds
its token in the list uses it for a unit that is there.
-/

import McuProxy.Net.Cancellation

namespace McuProxy.Net.System

open McuProxy.Math McuProxy.Time McuProxy.Time.Timeval TimedEventQ

/-- The calls that return -1 before they take the mutex. -/
def Refused : AddCall → Prop
  | .later _ _ mseconds type handler =>
      handler = 0 ∨ mseconds > maxPeriodDelay ∨ acceptsLater type = false
  | .period _ _ mseconds type handler =>
      handler = 0 ∨ mseconds > maxPeriodDelay ∨ acceptsPeriod type = false
  | .absTimed _ _ _ handler => handler = 0

/-- The steps that take the mutex: all but a call that is refused and the
invocation of a handler. -/
def Step.Locked : Step → Prop
  | .begin call => ¬ Refused call
  | .fire _ => False
  | _ => True

/-- The steps that issue a token: the second section of a relative call, and the
only section of an absolute call that is not refused. -/
def Issues (system : System) : Step → Prop
  | .number uid => uid ∈ system.unnumbered
  | .begin (.absTimed _ _ _ handler) => handler ≠ 0
  | _ => False

/-- No two live units have been issued one token. -/
def TokensDistinct (system : System) : Prop :=
  ∀ first ∈ system.live, ∀ second ∈ system.live, ∀ token,
    (first.uid, token) ∈ system.issued → (second.uid, token) ∈ system.issued →
      first.uid = second.uid

/-- The tokens of the units, as a step of some thread finds and leaves them. -/
structure SectionLaw (system : System) (action : Step) : Prop where
  /-- A section finds every unit of the list with the token issued for it. The
  section that writes the token is the one exception. -/
  carried : action.Locked → ∀ unit ∈ system.queue.mList,
    (unit.uid, unit.idToken) ∈ system.issued ∨ action = .number unit.uid
  /-- Units that are live at the same time have distinct tokens. -/
  distinct : ∀ next, system.step action = some next → next.TokensDistinct
  /-- A unit whose call has not assigned its token has not been destroyed. -/
  kept : ∀ next, system.step action = some next →
    ∀ uid ∈ next.unnumbered, ∃ unit ∈ next.live, unit.uid = uid

/-- The only section that follows the first one of a relative call is its second
one. -/
def Apart (system : System) (action : Step) : Prop :=
  action.Locked → ∀ uid ∈ system.unnumbered, action = .number uid

/-- What the order of the sections provides. -/
structure Ordered (system : System) (action : Step) : Prop where
  apart : system.Apart action
  /-- The next token is not the token of a live unit when it is issued. -/
  unused : system.Issues action → ∀ unit ∈ system.live,
    (unit.uid, system.queue.listToken) ∉ system.issued

/-- The system with the add calls that have left their last section: those that have
not read their token yet, and the tokens that were returned, with the unit of the
call. -/
structure Calls where
  system : System
  returning : List Nat
  returned : List (Nat × Nat)
  deriving DecidableEq, Repr

/-- A section or an invocation, or the return of an add call: `freed` is what the
memory of its unit holds if the unit has been destroyed. -/
inductive CallStep
  | act (action : Step)
  | read (uid freed : Nat)

/-- The call that a step takes out of its last section. -/
def leaving (system : System) : Step → List Nat
  | .number uid => [uid]
  | .begin (.absTimed _ _ _ handler) => if handler = 0 then [] else [system.queue.created]
  | _ => []

/-- `newEntry->idToken`, read without the mutex. -/
def readToken (system : System) (uid freed : Nat) : Nat :=
  match system.live.find? fun unit => unit.uid = uid with
  | some unit => unit.idToken
  | none => freed

namespace Calls

def init : Calls := ⟨System.init, [], []⟩

/-- A call that reads -1 deletes its unit, which is pending or gone: the step is
undefined. -/
def step (calls : Calls) : CallStep → Option Calls
  | .act action =>
      (calls.system.step action).map fun next =>
        { calls with
          system := next
          returning := calls.system.leaving action ++ calls.returning }
  | .read uid freed =>
      let token := calls.system.readToken uid freed
      if uid ∈ calls.returning ∧ token ≠ 4294967295 then
        some { calls with
          returning := calls.returning.filter fun other => other ≠ uid
          returned := (uid, token) :: calls.returned }
      else none

/-- Tokens identify events. -/
structure TokenLaw (calls : Calls) (step : CallStep) : Prop where
  sections : ∀ action, step = .act action → SectionLaw calls.system action
  /-- A cancellation removes the event its token was returned for, or nothing. -/
  removed : ∀ token, step = .act (.del token) →
    ∀ unit ∈ calls.system.queue.mList,
      unit ∉ (calls.system.queue.delTimedEvent token).mList →
        ∀ uid, (uid, token) ∈ calls.returned → unit.uid = uid

/-- What the order of the steps provides. -/
structure Serial (calls : Calls) (step : CallStep) : Prop where
  ordered : ∀ action, step = .act action → Ordered calls.system action
  /-- A cancellation that finds a unit of the list with its token uses a token that was
  returned only to calls whose units are in the list. -/
  current : ∀ token, step = .act (.del token) →
    (∃ unit ∈ calls.system.queue.mList, unit.idToken = token) →
      ∀ uid, (uid, token) ∈ calls.returned → ∃ unit ∈ calls.system.queue.mList, unit.uid = uid

end Calls

/-! ## What a step does to the tokens -/

/-- What holds at every point of an ordered run. -/
structure TokenInv (system : System) : Prop extends SystemInv system where
  numbered : ∀ unit ∈ system.live,
    unit.uid ∈ system.unnumbered ∨ (unit.uid, unit.idToken) ∈ system.issued
  waiting : ∀ uid ∈ system.unnumbered, ∃ unit ∈ system.queue.mList, unit.uid = uid
  distinct : system.TokensDistinct

theorem init_tokenInv : TokenInv init := by
  refine ⟨init_inv, ?_, ?_, ?_⟩ <;> simp [init, live, TimedEventQ.init, TokensDistinct]

theorem insertUnnumbered_issued (system : System) (grown : Option TimedEventQ) :
    (system.insertUnnumbered grown).issued = system.issued := by
  cases grown <;> rfl

theorem insertUnnumbered_listToken (system : System) (accepts : EventType → Bool)
    (junk : EventUnit) (now : Timeval) (mseconds : Nat) (type : EventType) (handler : Nat) :
    (system.insertUnnumbered
      (insertRelative accepts system.queue junk now mseconds type handler)).queue.listToken =
        system.queue.listToken := by
  by_cases hrefuse : handler = 0 ∨ mseconds > maxPeriodDelay ∨ accepts type = false
  · simp only [insertRelative, hrefuse, if_true, insertUnnumbered]
  · simp only [insertRelative, hrefuse, if_false, insertUnnumbered]
    rfl

/-- A unit with the number of the next one to be created has no token. -/
theorem SystemInv.created_unissued {system : System} (hinv : SystemInv system) (token : Nat) :
    (system.queue.created, token) ∉ system.issued :=
  fun hissue => (hinv.issued_lt _ hissue).ne rfl

/-- A unit that awaits its token has none. -/
theorem SystemInv.unnumbered_unissued {system : System} (hinv : SystemInv system) {uid : Nat}
    (hwaiting : uid ∈ system.unnumbered) (token : Nat) : (uid, token) ∉ system.issued :=
  fun hissue => hinv.issued_numbered _ hissue hwaiting

/-- No token is issued, and a unit that has one was live before. -/
structure Unissued (system next : System) : Prop where
  issued : next.issued = system.issued
  counter : next.queue.listToken = system.queue.listToken
  live : ∀ unit ∈ next.live, (∃ old ∈ system.live, old.uid = unit.uid) ∨
    ∀ token, (unit.uid, token) ∉ system.issued

/-- The next token is issued to a unit that had none. -/
structure Issued (system next : System) (uid : Nat) : Prop where
  fresh : ∀ token, (uid, token) ∉ system.issued
  issued : next.issued = (uid, system.queue.listToken) :: system.issued
  counter : next.queue.listToken = nextToken system.queue.listToken
  live : ∀ unit ∈ next.live, unit.uid = uid ∨ ∃ old ∈ system.live, old.uid = unit.uid

theorem Moved.unissued {system next : System} (hmoved : Moved system next)
    (hcounter : next.queue.listToken = system.queue.listToken) : Unissued system next where
  issued := hmoved.issued
  counter := hcounter
  live := by
    intro unit hunit
    obtain ⟨old, hold, huid, _⟩ := hmoved.live unit hunit
    exact Or.inl ⟨old, hold, huid.symm⟩

theorem insertUnnumbered_unissued {system : System} (hinv : SystemInv system)
    (accepts : EventType → Bool) (junk : EventUnit) (now : Timeval) (mseconds : Nat)
    (type : EventType) (handler : Nat) :
    Unissued system (system.insertUnnumbered
      (insertRelative accepts system.queue junk now mseconds type handler)) where
  issued := insertUnnumbered_issued _ _
  counter := insertUnnumbered_listToken ..
  live := by
    intro unit hunit
    rcases insertUnnumbered_cases system accepts junk now mseconds type handler with
      hrefused | ⟨new, hins⟩
    · rw [hrefused] at hunit
      exact Or.inl ⟨unit, hunit, rfl⟩
    · rcases hins.live unit hunit with rfl | hold
      · right
        rw [hins.uid]
        exact hinv.created_unissued
      · exact Or.inl ⟨unit, hold, rfl⟩

theorem absTimed_issued {system : System} (hinv : SystemInv system) (junk : EventUnit)
    (absTime : Timeval) (type : EventType) {handler : Nat} (hhandler : handler ≠ 0) :
    Issued system (system.begin (.absTimed junk absTime type handler)) system.queue.created where
  fresh := hinv.created_unissued
  issued := by simp only [begin, hhandler, if_false]
  counter := by
    simp only [begin, hhandler, if_false, addAbsTimedEvent]
    rfl
  live := by
    intro unit hunit
    rcases begin_cases system (.absTimed junk absTime type handler) with hrefused | ⟨new, hins⟩
    · rw [hrefused] at hunit
      exact Or.inr ⟨unit, hunit, rfl⟩
    · rcases hins.live unit hunit with rfl | hold
      · exact Or.inl hins.uid
      · exact Or.inr ⟨unit, hold, rfl⟩

theorem Numbered.issuedNext {system next : System} {uid : Nat} (hinv : SystemInv system)
    (hnum : Numbered system next uid system.queue.listToken)
    (hcounter : next.queue.listToken = nextToken system.queue.listToken) :
    Issued system next uid where
  fresh := hinv.unnumbered_unissued hnum.waiting
  issued := hnum.issued
  counter := hcounter
  live := by
    intro unit hunit
    obtain ⟨old, hold, rfl⟩ := hnum.live unit hunit
    exact Or.inr ⟨old, hold, (setToken_uid ..).symm⟩

/-- Every step issues no token, or the next one, and `Issues` tells which. -/
theorem step_issues {system next : System} (hinv : SystemInv system) {action : Step}
    (hstep : system.step action = some next) :
    Unissued system next ∨ system.Issues action ∧ ∃ uid, Issued system next uid := by
  cases action with
  | begin call =>
      obtain rfl := Option.some.inj hstep
      cases call with
      | later junk now mseconds type handler => exact Or.inl (insertUnnumbered_unissued hinv ..)
      | period junk now mseconds type handler => exact Or.inl (insertUnnumbered_unissued hinv ..)
      | absTimed junk absTime type handler =>
          by_cases hnull : handler = 0
          · left
            simp only [begin, hnull, if_true]
            exact (Moved.refl system).unissued rfl
          · exact Or.inr ⟨hnull, _, absTimed_issued hinv junk absTime type hnull⟩
  | number uid =>
      obtain ⟨hwaiting, rfl⟩ := number_eq_some hstep
      exact Or.inr ⟨hwaiting, uid, (number_numbered hwaiting).issuedNext hinv rfl⟩
  | del token =>
      obtain rfl := Option.some.inj hstep
      exact Or.inl ((del_moved system token).unissued rfl)
  | alarm timeNow =>
      obtain rfl := Option.some.inj hstep
      exact Or.inl ((alarm_moved system timeNow).unissued rfl)
  | fire k =>
      obtain ⟨entry, batch, halarm, rfl⟩ := fire_eq_some hstep
      exact Or.inl ((fire_moved halarm).unissued rfl)
  | rearm k now =>
      obtain ⟨entry, batch, halarm, rfl⟩ := rearm_eq_some hstep
      exact Or.inl ((rearm_moved halarm now).unissued rfl)

theorem TokensDistinct.unissued {system next : System} (hdistinct : system.TokensDistinct)
    (hsame : Unissued system next) : next.TokensDistinct := by
  intro first hfirst second hsecond token hissue hissue'
  rw [hsame.issued] at hissue hissue'
  rcases hsame.live first hfirst with ⟨old, hold, huid⟩ | hnone
  · rcases hsame.live second hsecond with ⟨old', hold', huid'⟩ | hnone'
    · rw [← huid, ← huid']
      exact hdistinct old hold old' hold' token (huid ▸ hissue) (huid' ▸ hissue')
    · exact absurd hissue' (hnone' token)
  · exact absurd hissue (hnone token)

/-- A live unit that has a token after an issue either is the one it went to, or
had this token before. -/
theorem Issued.mem_cases {system next : System} {uid : Nat} (hissued : Issued system next uid)
    {unit : EventUnit} (hunit : unit ∈ next.live) {token : Nat}
    (hissue : (unit.uid, token) ∈ next.issued) :
    unit.uid = uid ∧ token = system.queue.listToken ∨
      ∃ old ∈ system.live, old.uid = unit.uid ∧ (old.uid, token) ∈ system.issued := by
  rw [hissued.issued] at hissue
  rcases List.mem_cons.mp hissue with heq | hold
  · exact Or.inl (Prod.mk.inj heq)
  · rcases hissued.live unit hunit with rfl | ⟨old, hlive, huid⟩
    · exact absurd hold (hissued.fresh token)
    · exact Or.inr ⟨old, hlive, huid, huid ▸ hold⟩

theorem TokensDistinct.issued {system next : System} {uid : Nat}
    (hdistinct : system.TokensDistinct) (hissued : Issued system next uid)
    (hunused : ∀ unit ∈ system.live, (unit.uid, system.queue.listToken) ∉ system.issued) :
    next.TokensDistinct := by
  intro first hfirst second hsecond token hissue hissue'
  rcases hissued.mem_cases hfirst hissue with ⟨huid, rfl⟩ | ⟨old, hold, huid, hbefore⟩
  · rcases hissued.mem_cases hsecond hissue' with ⟨huid', _⟩ | ⟨old', hold', _, hbefore'⟩
    · exact huid.trans huid'.symm
    · exact absurd hbefore' (hunused old' hold')
  · rcases hissued.mem_cases hsecond hissue' with ⟨_, rfl⟩ | ⟨old', hold', huid', hbefore'⟩
    · exact absurd hbefore (hunused old hold)
    · rw [← huid, ← huid']
      exact hdistinct old hold old' hold' token hbefore hbefore'

theorem TokenInv.distinct_step {system next : System} (hinv : TokenInv system) {action : Step}
    (hordered : Ordered system action) (hstep : system.step action = some next) :
    next.TokensDistinct := by
  rcases step_issues hinv.toSystemInv hstep with hsame | ⟨hissues, uid, hissued⟩
  · exact hinv.distinct.unissued hsame
  · exact hinv.distinct.issued hissued (hordered.unused hissues)

/-! ## Units that await their token -/

/-- Between the two sections of a call, a section of another call is out of order. -/
theorem Ordered.unnumbered_nil {system : System} {action : Step}
    (hordered : Ordered system action) (hlocked : action.Locked)
    (hother : ∀ uid, action ≠ .number uid) : system.unnumbered = [] :=
  List.eq_nil_iff_forall_not_mem.mpr fun uid huid => hother uid (hordered.apart hlocked uid huid)

/-- The first section of a relative call leaves its unit in the list. -/
theorem insertUnnumbered_waiting {system : System} (hnone : system.unnumbered = [])
    (accepts : EventType → Bool) (junk : EventUnit) (now : Timeval) (mseconds : Nat)
    (type : EventType) (handler : Nat) :
    let next := system.insertUnnumbered
      (insertRelative accepts system.queue junk now mseconds type handler)
    ∀ uid ∈ next.unnumbered, ∃ unit ∈ next.queue.mList, unit.uid = uid := by
  intro next uid huid
  by_cases hrefuse : handler = 0 ∨ mseconds > maxPeriodDelay ∨ accepts type = false
  · simp [next, insertRelative, hrefuse, insertUnnumbered, hnone] at huid
  · simp only [next, insertRelative, hrefuse, if_false, insertUnnumbered, hnone,
      List.mem_singleton] at huid
    simp only [next, insertRelative, hrefuse, if_false, insertUnnumbered, huid]
    exact ⟨_, mem_addEventInternal.mpr (Or.inl rfl), rfl⟩

theorem begin_of_refused (system : System) {call : AddCall} (hrefused : Refused call) :
    system.begin call = system := by
  cases call with
  | later junk now mseconds type handler =>
      simp only [Refused] at hrefused
      simp only [begin, insertRelative, hrefused, if_true, insertUnnumbered]
  | period junk now mseconds type handler =>
      simp only [Refused] at hrefused
      simp only [begin, insertRelative, hrefused, if_true, insertUnnumbered]
  | absTimed junk absTime type handler => exact if_pos hrefused

theorem begin_waiting {system : System} (hnone : system.unnumbered = []) (call : AddCall) :
    ∀ uid ∈ (system.begin call).unnumbered,
      ∃ unit ∈ (system.begin call).queue.mList, unit.uid = uid := by
  cases call with
  | later junk now mseconds type handler => exact insertUnnumbered_waiting hnone _ _ _ _ _ _
  | period junk now mseconds type handler => exact insertUnnumbered_waiting hnone _ _ _ _ _ _
  | absTimed junk absTime type handler =>
      have hsame : (system.begin (.absTimed junk absTime type handler)).unnumbered = [] := by
        by_cases hnull : handler = 0 <;> simp [begin, hnull, hnone]
      simp [hsame]

/-- Along an ordered run, a unit that awaits its token is in the list. -/
theorem TokenInv.waiting_step {system next : System} (hinv : TokenInv system) {action : Step}
    (hordered : Ordered system action) (hstep : system.step action = some next) :
    ∀ uid ∈ next.unnumbered, ∃ unit ∈ next.queue.mList, unit.uid = uid := by
  -- A section other than the second one of a call finds no unit awaiting its token.
  have hnone := hordered.unnumbered_nil
  cases action with
  | begin call =>
      obtain rfl := Option.some.inj hstep
      by_cases hrefused : Refused call
      · rw [begin_of_refused system hrefused]
        exact hinv.waiting
      · exact begin_waiting (hnone hrefused (by simp)) call
  | number other =>
      obtain ⟨-, rfl⟩ := number_eq_some hstep
      intro uid huid
      obtain ⟨hold, hne⟩ := List.mem_filter.mp huid
      have hsame : other = uid := Step.number.inj (hordered.apart trivial uid hold)
      simp [hsame] at hne
  | del token =>
      obtain rfl := Option.some.inj hstep
      simp [hnone trivial (by simp)]
  | alarm timeNow =>
      obtain rfl := Option.some.inj hstep
      simp [hnone trivial (by simp)]
  | fire k =>
      obtain ⟨entry, batch, -, rfl⟩ := fire_eq_some hstep
      exact hinv.waiting
  | rearm k now =>
      obtain ⟨entry, batch, -, rfl⟩ := rearm_eq_some hstep
      simp [hnone trivial (by simp)]

theorem TokenInv.numbered_step {system next : System} (hinv : TokenInv system) {action : Step}
    (hstep : system.step action = some next) :
    ∀ unit ∈ next.live, unit.uid ∈ next.unnumbered ∨ (unit.uid, unit.idToken) ∈ next.issued := by
  intro unit hunit
  rcases step_cases hstep with hmoved | ⟨new, hins⟩ | ⟨uid, token, hnum⟩
  · obtain ⟨old, hold, huid, htoken⟩ := hmoved.live unit hunit
    rw [hmoved.unnumbered, hmoved.issued, huid, htoken]
    exact hinv.numbered old hold
  · rcases hins.numbering with ⟨hwaiting, hissued⟩ | ⟨hwaiting, hissued⟩
    · rw [hwaiting, hissued]
      rcases hins.live unit hunit with rfl | hold
      · exact Or.inl List.mem_cons_self
      · exact (hinv.numbered unit hold).imp_left (List.mem_cons_of_mem _)
    · rw [hwaiting, hissued]
      rcases hins.live unit hunit with rfl | hold
      · exact Or.inr List.mem_cons_self
      · exact (hinv.numbered unit hold).imp_right (List.mem_cons_of_mem _)
  · obtain ⟨old, hold, rfl⟩ := hnum.live unit hunit
    rw [setToken_uid, hnum.unnumbered, hnum.issued]
    by_cases huid : old.uid = uid
    · right
      simp [setToken, huid]
    · rcases hinv.numbered old hold with hwaiting | hissue
      · exact Or.inl (List.mem_filter.mpr ⟨hwaiting, by simpa using huid⟩)
      · exact Or.inr (List.mem_cons_of_mem _ (by simpa [setToken, huid] using hissue))

theorem TokenInv.step {system next : System} (hinv : TokenInv system) {action : Step}
    (hordered : Ordered system action) (hstep : system.step action = some next) :
    TokenInv next where
  toSystemInv := hinv.toSystemInv.step hstep
  numbered := hinv.numbered_step hstep
  waiting := hinv.waiting_step hordered hstep
  distinct := hinv.distinct_step hordered hstep

/-! ## The law and the order of the steps -/

/-- The unit that gets the next token, and every unit that was live, are live
when it has been issued. -/
structure Reaches (system next : System) (uid : Nat) : Prop where
  new : ∃ unit ∈ next.live, unit.uid = uid
  old : ∀ unit ∈ system.live, ∃ kept ∈ next.live, kept.uid = unit.uid

theorem absTimed_reaches (system : System) (junk : EventUnit) (absTime : Timeval)
    (type : EventType) {handler : Nat} (hhandler : handler ≠ 0) :
    Reaches system (system.begin (.absTimed junk absTime type handler))
      system.queue.created where
  new := by
    simp only [begin, hhandler, if_false, addAbsTimedEvent]
    exact ⟨_, mem_live.mpr (Or.inl (mem_addEventInternal.mpr (Or.inl rfl))), rfl⟩
  old := by
    intro unit hunit
    simp only [begin, hhandler, if_false, addAbsTimedEvent]
    refine ⟨unit, mem_live.mpr ?_, rfl⟩
    exact (mem_live.mp hunit).imp_left fun hmem => mem_addEventInternal.mpr (Or.inr hmem)

theorem Alarm.mem_assign {alarm : Alarm} {unit : EventUnit} (hunit : unit ∈ alarm.detached)
    (uid token : Nat) : setToken uid token unit ∈ (Alarm.assign uid token alarm).detached := by
  have hmem : setToken uid token unit ∈ alarm.detached.map (setToken uid token) :=
    List.mem_map_of_mem hunit
  simpa [Alarm.detached, Alarm.assign] using hmem

/-- The second section of a call: every live unit stays, and one gets its token. -/
theorem number_step {system : System} {uid : Nat} (hwaiting : uid ∈ system.unnumbered) :
    ∃ next, system.step (.number uid) = some next ∧
      Numbered system next uid system.queue.listToken ∧
      next.queue.listToken = nextToken system.queue.listToken ∧
      ∀ unit ∈ system.live, setToken uid system.queue.listToken unit ∈ next.live := by
  refine ⟨_, if_pos hwaiting, number_numbered hwaiting, rfl, ?_⟩
  intro unit hunit
  rcases mem_live.mp hunit with hmem | ⟨alarm, halarm, hdetached⟩
  · exact mem_live.mpr (Or.inl (List.mem_map.mpr ⟨unit, hmem, rfl⟩))
  · exact mem_live.mpr (Or.inr ⟨_, List.mem_map_of_mem halarm, Alarm.mem_assign hdetached ..⟩)

theorem TokenInv.number_reaches {system next : System} (hinv : TokenInv system) {uid : Nat}
    (hnum : Numbered system next uid system.queue.listToken)
    (hold : ∀ unit ∈ system.live, setToken uid system.queue.listToken unit ∈ next.live) :
    Reaches system next uid where
  new := by
    obtain ⟨unit, hunit, huid⟩ := hinv.waiting uid hnum.waiting
    exact ⟨_, hold unit (mem_live.mpr (Or.inl hunit)), (setToken_uid ..).trans huid⟩
  old := fun unit hunit => ⟨_, hold unit hunit, setToken_uid ..⟩

/-- Distinct tokens after an issue mean that the token was free before it. -/
theorem Issued.unused {system next : System} {uid : Nat} (hissued : Issued system next uid)
    (hreaches : Reaches system next uid) (hdistinct : next.TokensDistinct) :
    ∀ unit ∈ system.live, (unit.uid, system.queue.listToken) ∉ system.issued := by
  intro unit hunit hissue
  obtain ⟨new, hnew, huid⟩ := hreaches.new
  obtain ⟨kept, hkept, huid'⟩ := hreaches.old unit hunit
  have hhead : (new.uid, system.queue.listToken) ∈ next.issued := by
    rw [hissued.issued, huid]
    exact List.mem_cons_self
  have htail : (kept.uid, system.queue.listToken) ∈ next.issued := by
    rw [hissued.issued, huid']
    exact List.mem_cons_of_mem _ hissue
  have hsame : uid = unit.uid := by
    rw [← huid, ← huid']
    exact hdistinct new hnew kept hkept _ hhead htail
  exact hissued.fresh _ (hsame ▸ hissue)

theorem TokenInv.unused_of_law {system : System} (hinv : TokenInv system) {action : Step}
    (hlaw : SectionLaw system action) (hissues : system.Issues action) :
    ∀ unit ∈ system.live, (unit.uid, system.queue.listToken) ∉ system.issued := by
  cases action with
  | begin call =>
      cases call with
      | later junk now mseconds type handler => exact hissues.elim
      | period junk now mseconds type handler => exact hissues.elim
      | absTimed junk absTime type handler =>
          exact (absTimed_issued hinv.toSystemInv junk absTime type hissues).unused
            (absTimed_reaches system junk absTime type hissues) (hlaw.distinct _ rfl)
  | number uid =>
      obtain ⟨next, hstep, hnum, hcounter, hold⟩ := number_step hissues
      exact (hnum.issuedNext hinv.toSystemInv hcounter).unused (hinv.number_reaches hnum hold)
        (hlaw.distinct next hstep)
  | del token => exact hissues.elim
  | alarm timeNow => exact hissues.elim
  | fire k => exact hissues.elim
  | rearm k now => exact hissues.elim

/-- What a cancellation removes carries its token. -/
theorem token_of_removed {queue : TimedEventQ} {token : Nat} {unit : EventUnit}
    (hunit : unit ∈ queue.mList) (hgone : unit ∉ (queue.delTimedEvent token).mList) :
    unit.idToken = token := by
  by_contra hne
  exact hgone ((List.mem_eraseP_of_neg (by simpa using hne)).mpr hunit)

theorem TokenInv.ordered_of_law {system : System} (hinv : TokenInv system) {action : Step}
    (hlaw : SectionLaw system action) : Ordered system action where
  apart := by
    intro hlocked uid hwaiting
    obtain ⟨unit, hunit, rfl⟩ := hinv.waiting uid hwaiting
    rcases hlaw.carried hlocked unit hunit with hissue | hsecond
    · exact absurd hissue (hinv.unnumbered_unissued hwaiting _)
    · exact hsecond
  unused := hinv.unused_of_law hlaw

theorem TokenInv.law_of_ordered {system : System} (hinv : TokenInv system) {action : Step}
    (hordered : Ordered system action) : SectionLaw system action where
  carried := by
    intro hlocked unit hunit
    rcases hinv.numbered unit (mem_live.mpr (Or.inl hunit)) with hwaiting | hissue
    · exact Or.inr (hordered.apart hlocked _ hwaiting)
    · exact Or.inl hissue
  distinct := fun next hstep => hinv.distinct_step hordered hstep
  kept := by
    intro next hstep uid hwaiting
    obtain ⟨unit, hunit, huid⟩ := hinv.waiting_step hordered hstep uid hwaiting
    exact ⟨unit, mem_live.mpr (Or.inl hunit), huid⟩

/-- A token that was issued stays so, and a unit that has one is not live again once it
has been destroyed. -/
theorem issued_of_step {system next : System} (hinv : SystemInv system) {action : Step}
    (hstep : system.step action = some next) {uid token : Nat}
    (hissue : (uid, token) ∈ system.issued) :
    (uid, token) ∈ next.issued ∧
      ∀ unit ∈ next.live, unit.uid = uid → ∃ old ∈ system.live, old.uid = uid := by
  rcases step_issues hinv hstep with hsame | ⟨-, new, hissued⟩
  · refine ⟨hsame.issued ▸ hissue, ?_⟩
    rintro unit hunit rfl
    exact (hsame.live unit hunit).resolve_right fun hnone => hnone token hissue
  · refine ⟨hissued.issued ▸ List.mem_cons_of_mem _ hissue, ?_⟩
    rintro unit hunit rfl
    rcases hissued.live unit hunit with hnew | hold
    · exact absurd (hnew ▸ hissue) (hissued.fresh token)
    · exact hold

/-- A call that leaves its last section has been issued its token. -/
theorem issued_of_leaving {system next : System} {action : Step}
    (hstep : system.step action = some next) {uid : Nat} (huid : uid ∈ system.leaving action) :
    ∃ token, (uid, token) ∈ next.issued := by
  cases action with
  | begin call =>
      obtain rfl := Option.some.inj hstep
      cases call with
      | absTimed junk absTime type handler =>
          by_cases hnull : handler = 0
          · simp [leaving, hnull] at huid
          · simp only [leaving, hnull, if_false, List.mem_singleton] at huid
            simp only [begin, hnull, if_false, huid]
            exact ⟨_, List.mem_cons_self⟩
      | later junk now mseconds type handler => exact absurd huid List.not_mem_nil
      | period junk now mseconds type handler => exact absurd huid List.not_mem_nil
  | number other =>
      obtain ⟨-, rfl⟩ := number_eq_some hstep
      obtain rfl := List.mem_singleton.mp huid
      exact ⟨_, List.mem_cons_self⟩
  | del token => exact absurd huid List.not_mem_nil
  | alarm timeNow => exact absurd huid List.not_mem_nil
  | fire k => exact absurd huid List.not_mem_nil
  | rearm k now => exact absurd huid List.not_mem_nil

/-- A unit that is live is read with the token issued for it. -/
theorem TokenInv.readToken_issued {system : System} (hinv : TokenInv system) {uid token : Nat}
    (hissue : (uid, token) ∈ system.issued) {unit : EventUnit} (hunit : unit ∈ system.live)
    (huid : unit.uid = uid) (freed : Nat) : (uid, system.readToken uid freed) ∈ system.issued := by
  have hsome : (system.live.find? fun other => other.uid = uid).isSome := by
    rw [List.find?_isSome]
    exact ⟨unit, hunit, by simpa using huid⟩
  obtain ⟨found, hfound⟩ := Option.isSome_iff_exists.mp hsome
  have hsame : found.uid = uid := by simpa using List.find?_some hfound
  have hread : system.readToken uid freed = found.idToken := by
    rw [readToken, hfound]
  rw [hread, ← hsame]
  refine (hinv.numbered found (List.mem_of_find?_eq_some hfound)).resolve_left ?_
  exact fun hwaiting => hinv.unnumbered_unissued hwaiting token (hsame ▸ hissue)

namespace Calls

/-- What holds at every point of a serial run: a call that has left its last section
has been issued a token, and has returned this one if its unit is still live. -/
structure Inv (calls : Calls) : Prop where
  tokens : TokenInv calls.system
  returning : ∀ uid ∈ calls.returning, ∃ token, (uid, token) ∈ calls.system.issued
  returned : ∀ uid token, (uid, token) ∈ calls.returned →
    (∃ issued, (uid, issued) ∈ calls.system.issued) ∧
      ∀ unit ∈ calls.system.live, unit.uid = uid → (uid, token) ∈ calls.system.issued

theorem init_inv : init.Inv where
  tokens := init_tokenInv
  returning _ hmem := absurd hmem List.not_mem_nil
  returned _ _ hmem := absurd hmem List.not_mem_nil

theorem Inv.act {calls : Calls} (hinv : calls.Inv) {action : Step}
    (hordered : Ordered calls.system action) {next : System}
    (hstep : calls.system.step action = some next) :
    Inv { calls with
      system := next
      returning := calls.system.leaving action ++ calls.returning } where
  tokens := hinv.tokens.step hordered hstep
  returning uid huid := by
    rcases List.mem_append.mp huid with hnew | hold
    · exact issued_of_leaving hstep hnew
    · obtain ⟨token, hissue⟩ := hinv.returning uid hold
      exact ⟨token, (issued_of_step hinv.tokens.toSystemInv hstep hissue).1⟩
  returned uid token hmem := by
    obtain ⟨⟨issued, hissued⟩, hlive⟩ := hinv.returned uid token hmem
    obtain ⟨hkept, hbefore⟩ := issued_of_step hinv.tokens.toSystemInv hstep hissued
    refine ⟨⟨issued, hkept⟩, fun unit hunit huid => ?_⟩
    obtain ⟨old, hold, hsame⟩ := hbefore unit hunit huid
    exact (issued_of_step hinv.tokens.toSystemInv hstep (hlive old hold hsame)).1

theorem Inv.read {calls : Calls} (hinv : calls.Inv) {uid : Nat} (huid : uid ∈ calls.returning)
    (freed : Nat) :
    Inv { calls with
      returning := calls.returning.filter fun other => other ≠ uid
      returned := (uid, calls.system.readToken uid freed) :: calls.returned } where
  tokens := hinv.tokens
  returning other hother := hinv.returning other (List.mem_filter.mp hother).1
  returned other token hmem := by
    rcases List.mem_cons.mp hmem with hnew | hold
    · obtain ⟨rfl, rfl⟩ := Prod.mk.inj hnew
      obtain ⟨issued, hissue⟩ := hinv.returning other huid
      exact ⟨⟨issued, hissue⟩, fun unit hunit hsame =>
        hinv.tokens.readToken_issued hissue hunit hsame freed⟩
    · exact hinv.returned other token hold

theorem Inv.step {calls next : Calls} (hinv : calls.Inv) {step : CallStep}
    (hserial : Serial calls step) (hstep : calls.step step = some next) : next.Inv := by
  cases step with
  | act action =>
      obtain ⟨system, hsystem, rfl⟩ := Option.map_eq_some_iff.mp hstep
      exact hinv.act (hserial.ordered action rfl) hsystem
  | read uid freed =>
      obtain ⟨⟨huid, -⟩, hnext⟩ := Option.ite_none_right_eq_some.mp hstep
      obtain rfl := Option.some.inj hnext
      exact hinv.read huid freed

/-- A cancellation finds the unit it removes. -/
theorem Inv.current_of_law {calls : Calls} (hinv : calls.Inv) {token : Nat}
    (hlaw : TokenLaw calls (.act (.del token)))
    (hlisted : ∃ unit ∈ calls.system.queue.mList, unit.idToken = token) {uid : Nat}
    (hreturned : (uid, token) ∈ calls.returned) :
    ∃ unit ∈ calls.system.queue.mList, unit.uid = uid := by
  obtain ⟨unit, hunit, htoken⟩ := hlisted
  have hsome : (calls.system.queue.mList.find? fun other => other.idToken = token).isSome := by
    rw [List.find?_isSome]
    exact ⟨unit, hunit, by simpa using htoken⟩
  obtain ⟨found, hfound⟩ := Option.isSome_iff_exists.mp hsome
  have hmem := List.mem_of_find?_eq_some hfound
  exact ⟨found, hmem, hlaw.removed token rfl found hmem
    (hinv.tokens.stamps.notMem_delTimedEvent hfound) uid hreturned⟩

theorem Inv.serial_of_law {calls : Calls} (hinv : calls.Inv) {step : CallStep}
    (hlaw : TokenLaw calls step) : Serial calls step where
  ordered action haction := hinv.tokens.ordered_of_law (hlaw.sections action haction)
  current := by
    rintro token rfl hlisted uid hreturned
    exact hinv.current_of_law hlaw hlisted hreturned

/-- A cancellation enters when no unit awaits its token, so the unit that it removes
has it, and so has the unit of the call that returned it. -/
theorem Inv.removed_of_serial {calls : Calls} (hinv : calls.Inv) {token : Nat}
    (hserial : Serial calls (.act (.del token))) {unit : EventUnit}
    (hunit : unit ∈ calls.system.queue.mList)
    (hgone : unit ∉ (calls.system.queue.delTimedEvent token).mList) {uid : Nat}
    (hreturned : (uid, token) ∈ calls.returned) : unit.uid = uid := by
  have htoken := token_of_removed hunit hgone
  have hlive : unit ∈ calls.system.live := mem_live.mpr (Or.inl hunit)
  obtain ⟨other, hother, rfl⟩ := hserial.current token rfl ⟨unit, hunit, htoken⟩ uid hreturned
  have hlive' : other ∈ calls.system.live := mem_live.mpr (Or.inl hother)
  have hissued : (unit.uid, token) ∈ calls.system.issued := by
    rcases hinv.tokens.numbered unit hlive with hwaiting | hissue
    · have hnone := (hserial.ordered _ rfl).unnumbered_nil trivial (by simp)
      exact absurd (hnone ▸ hwaiting) List.not_mem_nil
    · exact htoken ▸ hissue
  exact hinv.tokens.distinct unit hlive other hlive' token hissued
    ((hinv.returned other.uid token hreturned).2 other hlive' rfl)

theorem Inv.law_of_serial {calls : Calls} (hinv : calls.Inv) {step : CallStep}
    (hserial : Serial calls step) : TokenLaw calls step where
  sections action haction := hinv.tokens.law_of_ordered (hserial.ordered action haction)
  removed := by
    rintro token rfl unit hunit hgone uid hreturned
    exact hinv.removed_of_serial hserial hunit hgone hreturned

end Calls

/-- Tokens identify events throughout a run exactly if no section comes between
the two of a relative call, no token is issued while a live unit has it, and no
cancellation that finds its token in the list got it from a call whose unit has gone. -/
theorem tokenLaw_iff (steps : List CallStep) :
    Promised Calls.step Calls.TokenLaw Calls.init steps ↔
      Promised Calls.step Calls.Serial Calls.init steps :=
  Promised.congr_unconditional Calls.Inv
    (fun _ _ hinv => ⟨hinv.serial_of_law, hinv.law_of_serial⟩)
    (fun _ _ _ hinv hserial hstep => hinv.step hserial hstep) Calls.init_inv steps

/-- A one-shot event with no delay falls due before its call reaches the second
section: the alarm of another thread detaches, invokes and destroys it. -/
def destroyedUnnumbered : List CallStep :=
  let junk : EventUnit := ⟨zero, .timedCallback, 0, 0, 0, 0, 0⟩
  [.act (.begin (.later junk zero 0 .timedCallback 7)), .act (.alarm ⟨10, 0⟩), .act (.fire 0)]

theorem tokenLaw_fails_when_destroyed :
    ¬ Promised Calls.step Calls.TokenLaw Calls.init destroyedUnnumbered := by
  intro hlaw
  have hfire : Calls.TokenLaw _ (.act (.fire 0)) := (hlaw.2 _ rfl).2 _ rfl |>.1
  exact absurd ((hfire.sections _ rfl).kept _ rfl 0) (by decide)

/-- No section comes between two of a call, but the first event is destroyed before its
call reads its token, and a second one is put into the block: both calls return the
second token, and the first caller cancels the event of the second. -/
def destroyedUnread : List CallStep :=
  let junk : EventUnit := ⟨zero, .timedCallback, 0, 0, 0, 0, 0⟩
  [.act (.begin (.later junk zero 0 .timedCallback 7)), .act (.number 0), .act (.alarm ⟨10, 0⟩),
    .act (.fire 0), .act (.begin (.later junk ⟨10, 0⟩ 1000 .timedCallback 8)), .act (.number 1),
    .read 0 2, .read 1 2, .act (.del 2)]

theorem tokenLaw_fails_when_unread :
    ¬ Promised Calls.step Calls.TokenLaw Calls.init destroyedUnread := by
  intro hlaw
  have hrun : (runMachine Calls.step Calls.init (destroyedUnread.take 8)).map (fun calls =>
      (calls.system.queue.mList.map EventUnit.uid,
        (calls.system.queue.delTimedEvent 2).mList, decide ((0, 2) ∈ calls.returned))) =
      some ([1], [], true) := by
    decide +kernel
  obtain ⟨calls, hcalls, heq⟩ := Option.map_eq_some_iff.mp hrun
  obtain ⟨huids, hafter⟩ := Prod.mk.inj heq
  obtain ⟨hempty, hreturned⟩ := Prod.mk.inj hafter
  have hdel : Calls.TokenLaw calls (.act (.del 2)) := Promised.middle
    (show Promised _ _ _ (destroyedUnread.take 8 ++ .act (.del 2) :: []) from hlaw) hcalls
  obtain ⟨unit, hunit, huid⟩ : ∃ unit ∈ calls.system.queue.mList, unit.uid = 1 :=
    List.mem_map.mp (huids ▸ List.mem_singleton_self 1)
  have hzero := hdel.removed 2 rfl unit hunit (hempty ▸ List.not_mem_nil) 0
    (of_decide_eq_true hreturned)
  exact absurd (huid.symm.trans hzero) (by decide)

/-! ## Runs too short for the counter to wrap -/

/-- The counter runs through the tokens in order: the number of tokens issued so
far gives the next one and, read backwards, each of those issued. -/
structure TokensCounted (system : System) : Prop extends SystemInv system where
  next : system.queue.listToken = (system.issued.length + 1) % 2 ^ 28
  tokens : ∀ k issue, system.issued.reverse[k]? = some issue → issue.2 = (k + 1) % 2 ^ 28

theorem nextToken_eq (token : Nat) : nextToken token = (token + 1) % 2 ^ 28 :=
  Nat.and_two_pow_sub_one_eq_mod (token + 1) 28

theorem TokensCounted.step {system next : System} (hcounted : TokensCounted system)
    {action : Step} (hstep : system.step action = some next) : TokensCounted next := by
  have hinv := hcounted.toSystemInv.step hstep
  rcases step_issues hcounted.toSystemInv hstep with hsame | ⟨-, uid, hissued⟩
  · exact ⟨hinv, by rw [hsame.counter, hsame.issued, hcounted.next],
      hsame.issued ▸ hcounted.tokens⟩
  · refine ⟨hinv, ?_, ?_⟩
    · rw [hissued.counter, hissued.issued, nextToken_eq, hcounted.next, List.length_cons,
        Nat.mod_add_mod]
    · intro k issue hissue
      rw [hissued.issued, List.reverse_cons, List.getElem?_append] at hissue
      split at hissue
      · exact hcounted.tokens k issue hissue
      · rename_i hlast
        obtain ⟨hzero, rfl⟩ := List.getElem?_eq_some_iff.mp hissue
        rw [List.length_singleton, List.length_reverse] at hzero
        rw [List.length_reverse] at hlast
        have hk : k = system.issued.length := by omega
        simp [hk, hcounted.next]

/-- What was issued, with its place in the order of issue. -/
theorem TokensCounted.mem_issued {system : System} (hcounted : TokensCounted system)
    {issue : Nat × Nat} (hissue : issue ∈ system.issued) :
    ∃ k < system.issued.length, system.issued.reverse[k]? = some issue ∧
      issue.2 = (k + 1) % 2 ^ 28 := by
  obtain ⟨k, hk⟩ := List.mem_iff_getElem?.mp (List.mem_reverse.mpr hissue)
  have hlt := (List.getElem?_eq_some_iff.mp hk).1
  exact ⟨k, by rwa [List.length_reverse] at hlt, hk, hcounted.tokens k issue hk⟩

theorem TokensCounted.issuedOnce {system : System} (hcounted : TokensCounted system)
    (hfew : system.issued.length < 2 ^ 28) {first second token : Nat}
    (hfirst : (first, token) ∈ system.issued) (hsecond : (second, token) ∈ system.issued) :
    first = second := by
  obtain ⟨k, hk, hget, htoken⟩ := hcounted.mem_issued hfirst
  obtain ⟨k', hk', hget', htoken'⟩ := hcounted.mem_issued hsecond
  have hsame : k = k' := by
    simp only at htoken htoken'
    omega
  rw [hsame, hget'] at hget
  exact (Prod.mk.inj (Option.some.inj hget)).1.symm

theorem TokensCounted.unused {system : System} (hcounted : TokensCounted system)
    (hfew : system.issued.length < 2 ^ 28) (uid : Nat) :
    (uid, system.queue.listToken) ∉ system.issued := by
  intro hissue
  obtain ⟨k, hk, _, htoken⟩ := hcounted.mem_issued hissue
  have hnext := hcounted.next
  simp only at htoken
  omega

/-- Each step issues at most one token. -/
theorem issued_growth {system next : System} (hinv : SystemInv system) {action : Step}
    (hstep : system.step action = some next) : next.issued.length ≤ system.issued.length + 1 := by
  rcases step_issues hinv hstep with hsame | ⟨-, uid, hissued⟩
  · simp [hsame.issued]
  · simp [hissued.issued]

namespace Calls

/-- No section comes between the two of a relative call, and a call reads its token
while its unit is there. -/
def Prompt (calls : Calls) : CallStep → Prop
  | .act action => calls.system.Apart action
  | .read uid _ => ∃ unit ∈ calls.system.live, unit.uid = uid

/-- What holds in addition along a prompt run that is too short for the counter to come
round. -/
structure Exact (calls : Calls) : Prop extends Inv calls where
  counted : TokensCounted calls.system
  exact : ∀ issue ∈ calls.returned, issue ∈ calls.system.issued

theorem Exact.serial {calls : Calls} (hexact : calls.Exact) {step : CallStep}
    (hfew : calls.system.issued.length < 2 ^ 28) (hprompt : calls.Prompt step) :
    Serial calls step where
  ordered := by
    rintro action rfl
    exact ⟨hprompt, fun _ unit _ => hexact.counted.unused hfew unit.uid⟩
  current := by
    rintro token rfl ⟨unit, hunit, rfl⟩ uid hreturned
    refine ⟨unit, hunit, ?_⟩
    rcases hexact.tokens.numbered unit (mem_live.mpr (Or.inl hunit)) with hwaiting | hissue
    · exact absurd (hprompt trivial _ hwaiting) (by simp)
    · exact hexact.counted.issuedOnce hfew hissue (hexact.exact _ hreturned)

theorem Exact.step {calls next : Calls} (hexact : calls.Exact) {step : CallStep}
    (hserial : Serial calls step) (hprompt : calls.Prompt step)
    (hstep : calls.step step = some next) :
    next.Exact ∧ next.system.issued.length ≤ calls.system.issued.length + 1 := by
  have hinv := hexact.toInv.step hserial hstep
  cases step with
  | act action =>
      obtain ⟨system, hsystem, rfl⟩ := Option.map_eq_some_iff.mp hstep
      refine ⟨⟨hinv, hexact.counted.step hsystem, fun issue hissue => ?_⟩,
        issued_growth hexact.counted.toSystemInv hsystem⟩
      exact (issued_of_step hexact.counted.toSystemInv hsystem (hexact.exact issue hissue)).1
  | read uid freed =>
      obtain ⟨⟨huid, -⟩, hnext⟩ := Option.ite_none_right_eq_some.mp hstep
      obtain rfl := Option.some.inj hnext
      refine ⟨⟨hinv, hexact.counted, fun issue hissue => ?_⟩, Nat.le_succ _⟩
      rcases List.mem_cons.mp hissue with rfl | hold
      · obtain ⟨token, htoken⟩ := hexact.returning uid huid
        obtain ⟨unit, hunit, hsame⟩ := hprompt
        exact hexact.tokens.readToken_issued htoken hunit hsame freed
      · exact hexact.exact issue hold

theorem Exact.promised {calls : Calls} (hexact : calls.Exact) {steps : List CallStep}
    (hfew : calls.system.issued.length + steps.length ≤ 2 ^ 28)
    (hprompt : Promised Calls.step Prompt calls steps) :
    Promised Calls.step Serial calls steps := by
  induction steps generalizing calls with
  | nil => trivial
  | cons step steps ih =>
      rw [List.length_cons] at hfew
      have hserial := hexact.serial (by omega) hprompt.1
      refine ⟨hserial, fun next hstep => ?_⟩
      obtain ⟨hnext, hgrowth⟩ := hexact.step hserial hprompt.1 hstep
      exact ih hnext (by omega) (hprompt.2 next hstep)

end Calls

/-- In a run of at most `2 ^ 28` steps the counter cannot come round, and it is enough
that sections do not come between the two of a call and that calls return in time. -/
theorem serial_of_prompt {steps : List CallStep} (hshort : steps.length ≤ 2 ^ 28)
    (hprompt : Promised Calls.step Calls.Prompt Calls.init steps) :
    Promised Calls.step Calls.Serial Calls.init steps := by
  have hcounted : TokensCounted System.init := ⟨System.init_inv, rfl, by simp [System.init]⟩
  have hexact : Calls.init.Exact :=
    ⟨Calls.init_inv, hcounted, fun _ hmem => absurd hmem List.not_mem_nil⟩
  exact hexact.promised (by simpa [Calls.init, System.init] using hshort) hprompt

end McuProxy.Net.System
