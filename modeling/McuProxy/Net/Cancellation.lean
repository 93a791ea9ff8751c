/-
# Cancelling an event while alarms are running

Several threads share the queue. Each critical section and each invocation of a
handler is one step, and the steps of the threads interleave in any order. A
handler may itself call the queue: its calls are the steps taken between its own
invocation and the next step of the alarm that invoked it.

Between the section that detaches a batch and the section that re-arms a unit,
units are pending and yet not in the list, where `delTimedEvent` looks for them.
A cancellation is effective exactly when it does not fall into that window, and
the number it is given still means the unit it was issued for.
-/

import McuProxy.Math.Machine
import McuProxy.Net.TimerRun

namespace McuProxy.Net

open McuProxy.Math McuProxy.Time McuProxy.Time.Timeval TimedEventQ

/-- An activation of `handleAlarmEvent` after its critical section: the periodic
unit that has been signalled and not yet re-armed, and the rest of `_list`. -/
structure Alarm where
  rearming : Option EventUnit
  batch : List EventUnit
  deriving DecidableEq, Repr

/-- The units an activation holds outside the list. -/
def Alarm.detached (alarm : Alarm) : List EventUnit := alarm.rearming.toList ++ alarm.batch

/-- The queue with everything in progress around it. `unnumbered` are the units
inserted by calls that have not reached their second critical section; `issued`
records the token written to each unit, and `fired` the invocations so far. -/
structure System where
  queue : TimedEventQ
  alarms : List Alarm
  unnumbered : List Nat
  issued : List (Nat × Nat)
  fired : List EventUnit
  deriving DecidableEq, Repr

namespace System

def init : System := ⟨TimedEventQ.init, [], [], [], []⟩

/-- One atomic step of some thread. -/
inductive Step
  | begin (call : AddCall)
  | number (uid : Nat)
  | del (token : Nat)
  | alarm (timeNow : Timeval)
  | fire (k : Nat)
  | rearm (k : Nat) (now : Timeval)

/-- The first critical section of a relative call, if it gets that far. -/
def insertUnnumbered (system : System) (grown : Option TimedEventQ) : System :=
  match grown with
  | none => system
  | some queue =>
      { system with
        queue := queue
        unnumbered := system.queue.created :: system.unnumbered }

/-- The first critical section of a call. For `addAbsTimedEvent` it is the
only one, and it issues the token. -/
def begin (system : System) : AddCall → System
  | .later junk now mseconds type handler =>
      system.insertUnnumbered
        (insertRelative acceptsLater system.queue junk now mseconds type handler)
  | .period junk now mseconds type handler =>
      system.insertUnnumbered
        (insertRelative acceptsPeriod system.queue { junk with period := mseconds } now mseconds
          type handler)
  | .absTimed junk absTime type handler =>
      if handler = 0 then system
      else
        { system with
          queue := (system.queue.addAbsTimedEvent junk absTime type handler).2
          issued := (system.queue.created, system.queue.listToken) :: system.issued }

/-- `newEntry->idToken = listToken`, seen by an alarm that holds the unit. -/
def setToken (uid token : Nat) (unit : EventUnit) : EventUnit :=
  if unit.uid = uid then { unit with idToken := token } else unit

def Alarm.assign (uid token : Nat) (alarm : Alarm) : Alarm :=
  ⟨alarm.rearming.map (setToken uid token), alarm.batch.map (setToken uid token)⟩

/-- The step function. A step is undefined when no thread can take it. -/
def step (system : System) : Step → Option System
  | .begin call => some (system.begin call)
  | .number uid =>
      if uid ∈ system.unnumbered then
        some { system with
          queue := system.queue.assignToken uid
          alarms := system.alarms.map (Alarm.assign uid system.queue.listToken)
          unnumbered := system.unnumbered.filter fun other => other ≠ uid
          issued := (uid, system.queue.listToken) :: system.issued }
      else none
  | .del token => some { system with queue := system.queue.delTimedEvent token }
  | .alarm timeNow =>
      some { system with
        queue := (system.queue.detach timeNow).2
        alarms := system.alarms ++ [⟨none, (system.queue.detach timeNow).1⟩] }
  | .fire k =>
      match system.alarms[k]? with
      | some ⟨none, entry :: batch⟩ =>
          some { system with
            alarms := system.alarms.set k
              ⟨if entry.type.isPeriod then some entry else none, batch⟩
            fired := entry :: system.fired }
      | _ => none
  | .rearm k now =>
      match system.alarms[k]? with
      | some ⟨some entry, batch⟩ =>
          some { system with
            queue := system.queue.rearm now entry
            alarms := system.alarms.set k ⟨none, batch⟩ }
      | _ => none

/-- A run of the system from the fresh queue. -/
def run (steps : List Step) : Option System := runMachine step init steps

/-- The units that can still come to fire. -/
def live (system : System) : List EventUnit :=
  system.queue.mList ++ system.alarms.flatMap Alarm.detached

/-- The invocations of one unit's handler. -/
def firings (system : System) (uid : Nat) : List EventUnit :=
  system.fired.filter fun unit => unit.uid = uid

/-- No two units of the list were inserted by the same insertion. -/
structure StampsDistinct (queue : TimedEventQ) : Prop where
  nodup : (queue.mList.map EventUnit.stamp).Nodup
  lt : ∀ unit ∈ queue.mList, unit.stamp < queue.inserted

theorem StampsDistinct.addEventInternal {queue : TimedEventQ} (hstamps : StampsDistinct queue)
    (unit : EventUnit) : StampsDistinct (queue.addEventInternal unit) where
  nodup := by
    have hperm : ((queue.addEventInternal unit).mList.map EventUnit.stamp).Perm
        (queue.inserted :: queue.mList.map EventUnit.stamp) :=
      (insertBefore_perm _ _ _).map EventUnit.stamp
    refine hperm.nodup_iff.mpr (List.nodup_cons.mpr ⟨?_, hstamps.nodup⟩)
    intro hmem
    obtain ⟨other, hother, heq⟩ := List.mem_map.mp hmem
    exact (hstamps.lt other hother).ne heq
  lt := by
    intro other hother
    rcases mem_addEventInternal.mp hother with rfl | hold
    · exact Nat.lt_succ_self _
    · exact Nat.lt_succ_of_lt (hstamps.lt other hold)

theorem StampsDistinct.sublist {queue : TimedEventQ} (hstamps : StampsDistinct queue)
    {units : List EventUnit} (hsub : units.Sublist queue.mList) :
    StampsDistinct { queue with mList := units } :=
  ⟨hstamps.nodup.sublist (hsub.map _), fun unit hunit => hstamps.lt unit (hsub.subset hunit)⟩

theorem StampsDistinct.assignToken {queue : TimedEventQ} (hstamps : StampsDistinct queue)
    (uid : Nat) : StampsDistinct (queue.assignToken uid) where
  nodup := by
    have hkeep : (queue.assignToken uid).mList.map EventUnit.stamp =
        queue.mList.map EventUnit.stamp := by
      simp only [TimedEventQ.assignToken, List.map_map]
      apply List.map_congr_left
      intro unit _
      simp only [Function.comp_apply]
      split <;> rfl
    rw [hkeep]
    exact hstamps.nodup
  lt := by
    intro unit hunit
    obtain ⟨old, hold, rfl⟩ := List.mem_map.mp hunit
    have hlt := hstamps.lt old hold
    split <;> exact hlt

/-- In a list of distinct units, the unit found is the unit erased. -/
theorem StampsDistinct.notMem_delTimedEvent {queue : TimedEventQ} (hstamps : StampsDistinct queue)
    {token : Nat} {unit : EventUnit}
    (hfind : (queue.mList.find? fun other => other.idToken = token) = some unit) :
    unit ∉ (queue.delTimedEvent token).mList := by
  have hnodup : queue.mList.Nodup := List.Nodup.of_map _ hstamps.nodup
  obtain ⟨hunit, pre, post, hlist, hpre⟩ := List.find?_eq_some_iff_append.mp hfind
  have herase : (queue.delTimedEvent token).mList = pre ++ post := by
    show queue.mList.eraseP _ = _
    rw [hlist, List.eraseP_append_right _ (by simpa using hpre), List.eraseP_cons, hunit,
      cond_true]
  rw [herase]
  rw [hlist] at hnodup
  exact fun hmem => (List.nodup_middle.mp hnodup).notMem hmem

/-! ## What every reachable system satisfies -/

/-- The numbering of units and tokens: a live unit that was issued a token
carries it, and a unit awaiting its number has been issued none. -/
structure SystemInv (system : System) : Prop where
  stamps : StampsDistinct system.queue
  live_lt : ∀ unit ∈ system.live, unit.uid < system.queue.created
  unnumbered_lt : ∀ uid ∈ system.unnumbered, uid < system.queue.created
  issued_lt : ∀ issue ∈ system.issued, issue.1 < system.queue.created
  issued_numbered : ∀ issue ∈ system.issued, issue.1 ∉ system.unnumbered
  token_eq : ∀ unit ∈ system.live, ∀ token, (unit.uid, token) ∈ system.issued →
    unit.idToken = token

theorem init_inv : SystemInv init := by
  constructor <;> simp [init, live, TimedEventQ.init]
  exact ⟨List.nodup_nil, by simp⟩

theorem mem_live {system : System} {unit : EventUnit} :
    unit ∈ system.live ↔ unit ∈ system.queue.mList ∨
      ∃ alarm ∈ system.alarms, unit ∈ alarm.detached := by
  simp [live]

/-! ## What a step can do -/

theorem number_eq_some {system after : System} {uid : Nat}
    (hstep : system.step (.number uid) = some after) :
    uid ∈ system.unnumbered ∧ after = { system with
      queue := system.queue.assignToken uid
      alarms := system.alarms.map (Alarm.assign uid system.queue.listToken)
      unnumbered := system.unnumbered.filter fun other => other ≠ uid
      issued := (uid, system.queue.listToken) :: system.issued } := by
  obtain ⟨hwaiting, hafter⟩ := Option.ite_none_right_eq_some.mp hstep
  exact ⟨hwaiting, (Option.some.inj hafter).symm⟩

theorem fire_eq_some {system after : System} {k : Nat}
    (hstep : system.step (.fire k) = some after) :
    ∃ entry batch, system.alarms[k]? = some ⟨none, entry :: batch⟩ ∧ after = { system with
      alarms := system.alarms.set k ⟨if entry.type.isPeriod then some entry else none, batch⟩
      fired := entry :: system.fired } := by
  simp only [step] at hstep
  split at hstep
  · rename_i entry batch halarm
    exact ⟨entry, batch, halarm, (Option.some.inj hstep).symm⟩
  · cases hstep

theorem rearm_eq_some {system after : System} {k : Nat} {now : Timeval}
    (hstep : system.step (.rearm k now) = some after) :
    ∃ entry batch, system.alarms[k]? = some ⟨some entry, batch⟩ ∧ after = { system with
      queue := system.queue.rearm now entry
      alarms := system.alarms.set k ⟨none, batch⟩ } := by
  simp only [step] at hstep
  split at hstep
  · rename_i entry batch halarm
    exact ⟨entry, batch, halarm, (Option.some.inj hstep).symm⟩
  · cases hstep

/-- Units change places, and at most one handler is invoked. -/
structure Moved (system moved : System) : Prop where
  stamps : StampsDistinct system.queue → StampsDistinct moved.queue
  created : moved.queue.created = system.queue.created
  unnumbered : moved.unnumbered = system.unnumbered
  issued : moved.issued = system.issued
  live : ∀ unit ∈ moved.live, ∃ old ∈ system.live,
    unit.uid = old.uid ∧ unit.idToken = old.idToken
  fired : moved.fired = system.fired ∨ ∃ entry ∈ system.live, moved.fired = entry :: system.fired

/-- A new unit enters the list, and either waits for its number or has it. -/
structure Inserted (system grown : System) (unit : EventUnit) : Prop where
  stamps : StampsDistinct system.queue → StampsDistinct grown.queue
  uid : unit.uid = system.queue.created
  created : grown.queue.created = system.queue.created + 1
  live : ∀ other ∈ grown.live, other = unit ∨ other ∈ system.live
  fired : grown.fired = system.fired
  numbering : grown.unnumbered = unit.uid :: system.unnumbered ∧ grown.issued = system.issued ∨
    grown.unnumbered = system.unnumbered ∧
      grown.issued = (unit.uid, unit.idToken) :: system.issued

/-- A unit that was waiting for its number has been given it. -/
structure Numbered (system numbered : System) (uid token : Nat) : Prop where
  stamps : StampsDistinct system.queue → StampsDistinct numbered.queue
  waiting : uid ∈ system.unnumbered
  created : numbered.queue.created = system.queue.created
  live : ∀ unit ∈ numbered.live, ∃ old ∈ system.live, unit = setToken uid token old
  fired : numbered.fired = system.fired
  unnumbered : numbered.unnumbered = system.unnumbered.filter fun other => other ≠ uid
  issued : numbered.issued = (uid, token) :: system.issued

theorem Moved.refl (system : System) : Moved system system :=
  ⟨fun hstamps => hstamps, rfl, rfl, rfl, fun unit hunit => ⟨unit, hunit, rfl, rfl⟩, Or.inl rfl⟩

/-- The insertion of a new unit once the counters have been moved on. -/
theorem Inserted.of_add {system grown : System} {counted : TimedEventQ} {unit : EventUnit}
    (hcounted : counted = { system.queue with
      listToken := counted.listToken, created := system.queue.created + 1 })
    (hqueue : grown.queue = counted.addEventInternal unit)
    (huid : unit.uid = system.queue.created) (halarms : grown.alarms = system.alarms)
    (hfired : grown.fired = system.fired)
    (hnumbering : grown.unnumbered = unit.uid :: system.unnumbered ∧
        grown.issued = system.issued ∨
      grown.unnumbered = system.unnumbered ∧
        grown.issued = (unit.uid, unit.idToken) :: system.issued) :
    Inserted system grown { unit with stamp := system.queue.inserted } where
  stamps := by
    intro hstamps
    rw [hqueue]
    apply StampsDistinct.addEventInternal
    rw [hcounted]
    exact ⟨hstamps.nodup, hstamps.lt⟩
  uid := huid
  created := by
    rw [hqueue, hcounted]
    rfl
  live := by
    intro other hother
    rcases mem_live.mp hother with hmem | hdetached
    · rw [hqueue, mem_addEventInternal, hcounted] at hmem
      rcases hmem with hnew | hold
      · exact Or.inl hnew
      · exact Or.inr (mem_live.mpr (Or.inl hold))
    · rw [halarms] at hdetached
      exact Or.inr (mem_live.mpr (Or.inr hdetached))
  fired := hfired
  numbering := hnumbering

theorem insertUnnumbered_cases (system : System) (accepts : EventType → Bool) (junk : EventUnit)
    (now : Timeval) (mseconds : Nat) (type : EventType) (handler : Nat) :
    let grown := system.insertUnnumbered
      (insertRelative accepts system.queue junk now mseconds type handler)
    grown = system ∨ ∃ unit, Inserted system grown unit := by
  intro grown
  by_cases hrefuse : handler = 0 ∨ mseconds > maxPeriodDelay ∨ accepts type = false
  · left
    simp only [grown, insertRelative, hrefuse, if_true, insertUnnumbered]
  · right
    simp only [grown, insertRelative, hrefuse, if_false, insertUnnumbered]
    exact ⟨_, Inserted.of_add rfl rfl rfl rfl rfl (Or.inl ⟨rfl, rfl⟩)⟩

theorem begin_cases (system : System) (call : AddCall) :
    system.begin call = system ∨ ∃ unit, Inserted system (system.begin call) unit := by
  cases call with
  | later junk now mseconds type handler => exact insertUnnumbered_cases ..
  | period junk now mseconds type handler => exact insertUnnumbered_cases ..
  | absTimed junk absTime type handler =>
      by_cases hnull : handler = 0
      · left
        simp only [begin, hnull, if_true]
      · right
        simp only [begin, hnull, if_false, addAbsTimedEvent]
        exact ⟨_, Inserted.of_add rfl rfl rfl rfl rfl (Or.inr ⟨rfl, rfl⟩)⟩

/-- What a live unit of a replaced activation can be. -/
theorem mem_set_detached {alarms : List Alarm} {k : Nat} {alarm alarm' : Alarm}
    (halarm : alarms[k]? = some alarm) (hsub : ∀ unit ∈ alarm'.detached, unit ∈ alarm.detached)
    {unit : EventUnit} (hunit : ∃ other ∈ alarms.set k alarm', unit ∈ other.detached) :
    ∃ other ∈ alarms, unit ∈ other.detached := by
  obtain ⟨other, hother, hdetached⟩ := hunit
  rcases List.mem_or_eq_of_mem_set hother with hold | rfl
  · exact ⟨other, hold, hdetached⟩
  · exact ⟨alarm, List.mem_of_getElem? halarm, hsub unit hdetached⟩

theorem number_numbered {system : System} {uid : Nat} (hwaiting : uid ∈ system.unnumbered) :
    Numbered system { system with
      queue := system.queue.assignToken uid
      alarms := system.alarms.map (Alarm.assign uid system.queue.listToken)
      unnumbered := system.unnumbered.filter fun other => other ≠ uid
      issued := (uid, system.queue.listToken) :: system.issued } uid system.queue.listToken where
  stamps := fun hstamps => hstamps.assignToken uid
  waiting := hwaiting
  created := rfl
  live := by
    intro unit hunit
    rcases mem_live.mp hunit with hmem | ⟨alarm, halarm, hdetached⟩
    · obtain ⟨old, hold, rfl⟩ := List.mem_map.mp hmem
      exact ⟨old, mem_live.mpr (Or.inl hold), rfl⟩
    · obtain ⟨before, hbefore, rfl⟩ := List.mem_map.mp halarm
      have hdetached' : unit ∈ before.detached.map (setToken uid system.queue.listToken) := by
        simpa [Alarm.detached, Alarm.assign] using hdetached
      obtain ⟨old, hold, rfl⟩ := List.mem_map.mp hdetached'
      exact ⟨old, mem_live.mpr (Or.inr ⟨before, hbefore, hold⟩), rfl⟩
  fired := rfl
  unnumbered := rfl
  issued := rfl

theorem mem_live_del {system : System} {token : Nat} {unit : EventUnit}
    (hunit : unit ∈ live { system with queue := system.queue.delTimedEvent token }) :
    unit ∈ system.live := by
  rcases mem_live.mp hunit with hmem | hdetached
  · exact mem_live.mpr (Or.inl (List.mem_of_mem_eraseP hmem))
  · exact mem_live.mpr (Or.inr hdetached)

theorem del_moved (system : System) (token : Nat) :
    Moved system { system with queue := system.queue.delTimedEvent token } where
  stamps := fun hstamps => hstamps.sublist List.eraseP_sublist
  created := rfl
  unnumbered := rfl
  issued := rfl
  live := fun unit hunit => ⟨unit, mem_live_del hunit, rfl, rfl⟩
  fired := Or.inl rfl

theorem mem_live_alarm {system : System} {timeNow : Timeval} {unit : EventUnit}
    (hunit : unit ∈ live { system with
      queue := (system.queue.detach timeNow).2
      alarms := system.alarms ++ [⟨none, (system.queue.detach timeNow).1⟩] }) :
    unit ∈ system.live := by
  rcases mem_live.mp hunit with hmem | ⟨alarm, halarm, hdetached⟩
  · exact mem_live.mpr (Or.inl ((List.dropWhile_sublist _).subset hmem))
  · rcases List.mem_append.mp halarm with hold | hnew
    · exact mem_live.mpr (Or.inr ⟨alarm, hold, hdetached⟩)
    · obtain rfl := List.mem_singleton.mp hnew
      exact mem_live.mpr (Or.inl ((List.takeWhile_sublist _).subset hdetached))

theorem alarm_moved (system : System) (timeNow : Timeval) :
    Moved system { system with
      queue := (system.queue.detach timeNow).2
      alarms := system.alarms ++ [⟨none, (system.queue.detach timeNow).1⟩] } where
  stamps := fun hstamps => hstamps.sublist (List.dropWhile_sublist _)
  created := rfl
  unnumbered := rfl
  issued := rfl
  live := fun unit hunit => ⟨unit, mem_live_alarm hunit, rfl, rfl⟩
  fired := Or.inl rfl

theorem mem_live_fire {system : System} {k : Nat} {entry : EventUnit} {batch : List EventUnit}
    (halarm : system.alarms[k]? = some ⟨none, entry :: batch⟩) {unit : EventUnit}
    (hunit : unit ∈ live { system with
      alarms := system.alarms.set k ⟨if entry.type.isPeriod then some entry else none, batch⟩
      fired := entry :: system.fired }) :
    unit ∈ system.live := by
  rcases mem_live.mp hunit with hmem | hdetached
  · exact mem_live.mpr (Or.inl hmem)
  · refine mem_live.mpr (Or.inr (mem_set_detached halarm ?_ hdetached))
    intro other hother
    cases hperiod : entry.type.isPeriod <;> simp_all [Alarm.detached]

theorem fire_moved {system : System} {k : Nat} {entry : EventUnit} {batch : List EventUnit}
    (halarm : system.alarms[k]? = some ⟨none, entry :: batch⟩) :
    Moved system { system with
      alarms := system.alarms.set k ⟨if entry.type.isPeriod then some entry else none, batch⟩
      fired := entry :: system.fired } where
  stamps := fun hstamps => hstamps
  created := rfl
  unnumbered := rfl
  issued := rfl
  live := fun unit hunit => ⟨unit, mem_live_fire halarm hunit, rfl, rfl⟩
  fired := by
    refine Or.inr ⟨entry, mem_live.mpr (Or.inr ⟨_, List.mem_of_getElem? halarm, ?_⟩), rfl⟩
    simp [Alarm.detached]

/-- The unit that waits to be re-armed is live. -/
theorem mem_live_rearming {system : System} {k : Nat} {entry : EventUnit} {batch : List EventUnit}
    (halarm : system.alarms[k]? = some ⟨some entry, batch⟩) : entry ∈ system.live := by
  refine mem_live.mpr (Or.inr ⟨_, List.mem_of_getElem? halarm, ?_⟩)
  simp [Alarm.detached]

theorem mem_live_rearm {system : System} {k : Nat} {entry : EventUnit} {batch : List EventUnit}
    (halarm : system.alarms[k]? = some ⟨some entry, batch⟩) {now : Timeval} {unit : EventUnit}
    (hunit : unit ∈ live { system with
      queue := system.queue.rearm now entry
      alarms := system.alarms.set k ⟨none, batch⟩ }) :
    unit = rearmed entry now system.queue.inserted ∨ unit ∈ system.live := by
  rcases mem_live.mp hunit with hmem | hdetached
  · rcases mem_addEventInternal.mp hmem with hnew | hold
    · exact Or.inl hnew
    · exact Or.inr (mem_live.mpr (Or.inl hold))
  · refine Or.inr (mem_live.mpr (Or.inr (mem_set_detached halarm ?_ hdetached)))
    intro other hother
    simpa [Alarm.detached] using Or.inr (by simpa [Alarm.detached] using hother)

theorem rearm_moved {system : System} {k : Nat} {entry : EventUnit} {batch : List EventUnit}
    (halarm : system.alarms[k]? = some ⟨some entry, batch⟩) (now : Timeval) :
    Moved system { system with
      queue := system.queue.rearm now entry
      alarms := system.alarms.set k ⟨none, batch⟩ } where
  stamps := fun hstamps => hstamps.addEventInternal _
  created := rfl
  unnumbered := rfl
  issued := rfl
  live := by
    intro unit hunit
    rcases mem_live_rearm halarm hunit with rfl | hold
    · exact ⟨entry, mem_live_rearming halarm, rfl, rfl⟩
    · exact ⟨unit, hold, rfl, rfl⟩
  fired := Or.inl rfl

/-- Every step moves units about, inserts a new one, or numbers one. -/
theorem step_cases {system after : System} {action : Step}
    (hstep : system.step action = some after) :
    Moved system after ∨ (∃ unit, Inserted system after unit) ∨
      ∃ uid token, Numbered system after uid token := by
  cases action with
  | begin call =>
      obtain rfl := Option.some.inj hstep
      rcases begin_cases system call with hrefused | hinserted
      · rw [hrefused]
        exact Or.inl (Moved.refl system)
      · exact Or.inr (Or.inl hinserted)
  | number uid =>
      obtain ⟨hwaiting, rfl⟩ := number_eq_some hstep
      exact Or.inr (Or.inr ⟨uid, _, number_numbered hwaiting⟩)
  | del token =>
      obtain rfl := Option.some.inj hstep
      exact Or.inl (del_moved system token)
  | alarm timeNow =>
      obtain rfl := Option.some.inj hstep
      exact Or.inl (alarm_moved system timeNow)
  | fire k =>
      obtain ⟨entry, batch, halarm, rfl⟩ := fire_eq_some hstep
      exact Or.inl (fire_moved halarm)
  | rearm k now =>
      obtain ⟨entry, batch, halarm, rfl⟩ := rearm_eq_some hstep
      exact Or.inl (rearm_moved halarm now)

/-! ## Reachable systems -/

theorem SystemInv.moved {system after : System} (hinv : SystemInv system)
    (hmoved : Moved system after) : SystemInv after where
  stamps := hmoved.stamps hinv.stamps
  live_lt := by
    intro unit hunit
    obtain ⟨old, hold, huid, _⟩ := hmoved.live unit hunit
    rw [huid, hmoved.created]
    exact hinv.live_lt old hold
  unnumbered_lt := by
    rw [hmoved.unnumbered, hmoved.created]
    exact hinv.unnumbered_lt
  issued_lt := by
    rw [hmoved.issued, hmoved.created]
    exact hinv.issued_lt
  issued_numbered := by
    rw [hmoved.issued, hmoved.unnumbered]
    exact hinv.issued_numbered
  token_eq := by
    intro unit hunit token hissue
    obtain ⟨old, hold, huid, htoken⟩ := hmoved.live unit hunit
    rw [hmoved.issued, huid] at hissue
    rw [htoken]
    exact hinv.token_eq old hold token hissue

theorem SystemInv.inserted {system after : System} {unit : EventUnit} (hinv : SystemInv system)
    (hins : Inserted system after unit) : SystemInv after where
  stamps := hins.stamps hinv.stamps
  live_lt := by
    intro other hother
    rw [hins.created]
    rcases hins.live other hother with rfl | hold
    · exact hins.uid ▸ Nat.lt_succ_self _
    · exact Nat.lt_succ_of_lt (hinv.live_lt other hold)
  unnumbered_lt := by
    intro uid huid
    rw [hins.created]
    rcases hins.numbering with ⟨hwaiting, _⟩ | ⟨hwaiting, _⟩
    · rcases List.mem_cons.mp (hwaiting ▸ huid) with rfl | hold
      · exact hins.uid ▸ Nat.lt_succ_self _
      · exact Nat.lt_succ_of_lt (hinv.unnumbered_lt uid hold)
    · exact Nat.lt_succ_of_lt (hinv.unnumbered_lt uid (hwaiting ▸ huid))
  issued_lt := by
    intro issue hissue
    rw [hins.created]
    rcases hins.numbering with ⟨_, hissued⟩ | ⟨_, hissued⟩
    · exact Nat.lt_succ_of_lt (hinv.issued_lt issue (hissued ▸ hissue))
    · rcases List.mem_cons.mp (hissued ▸ hissue) with rfl | hold
      · exact hins.uid ▸ Nat.lt_succ_self _
      · exact Nat.lt_succ_of_lt (hinv.issued_lt issue hold)
  issued_numbered := by
    intro issue hissue huid
    rcases hins.numbering with ⟨hwaiting, hissued⟩ | ⟨hwaiting, hissued⟩
    · rw [hissued] at hissue
      rcases List.mem_cons.mp (hwaiting ▸ huid) with heq | hold
      · exact (hinv.issued_lt issue hissue).ne (heq.trans hins.uid)
      · exact hinv.issued_numbered issue hissue hold
    · rw [hwaiting] at huid
      rcases List.mem_cons.mp (hissued ▸ hissue) with rfl | hold
      · exact (hinv.unnumbered_lt _ huid).ne hins.uid
      · exact hinv.issued_numbered issue hold huid
  token_eq := by
    intro other hother token hissue
    -- The number of the new unit is beyond every number issued before.
    have hfresh : ∀ issue ∈ system.issued, issue.1 ≠ unit.uid := fun issue hold heq =>
      (hinv.issued_lt issue hold).ne (heq.trans hins.uid)
    rcases hins.live other hother with rfl | hold
    · rcases hins.numbering with ⟨_, hissued⟩ | ⟨_, hissued⟩
      · exact absurd rfl (hfresh _ (hissued ▸ hissue))
      · rcases List.mem_cons.mp (hissued ▸ hissue) with heq | hold
        · exact (Prod.mk.inj heq).2.symm
        · exact absurd rfl (hfresh _ hold)
    · have hne : other.uid ≠ unit.uid := fun heq =>
        (hinv.live_lt other hold).ne (heq.trans hins.uid)
      rcases hins.numbering with ⟨_, hissued⟩ | ⟨_, hissued⟩
      · exact hinv.token_eq other hold token (hissued ▸ hissue)
      · rcases List.mem_cons.mp (hissued ▸ hissue) with heq | hissue'
        · exact absurd (Prod.mk.inj heq).1 hne
        · exact hinv.token_eq other hold token hissue'

@[simp]
theorem setToken_uid (uid token : Nat) (unit : EventUnit) :
    (setToken uid token unit).uid = unit.uid := by
  unfold setToken
  split <;> rfl

theorem SystemInv.numbered {system after : System} {uid token : Nat} (hinv : SystemInv system)
    (hnum : Numbered system after uid token) : SystemInv after where
  stamps := hnum.stamps hinv.stamps
  live_lt := by
    intro unit hunit
    obtain ⟨old, hold, rfl⟩ := hnum.live unit hunit
    rw [setToken_uid, hnum.created]
    exact hinv.live_lt old hold
  unnumbered_lt := by
    intro other hother
    rw [hnum.unnumbered] at hother
    rw [hnum.created]
    exact hinv.unnumbered_lt other (List.mem_of_mem_filter hother)
  issued_lt := by
    intro issue hissue
    rw [hnum.created]
    rcases List.mem_cons.mp (hnum.issued ▸ hissue) with rfl | hold
    · exact hinv.unnumbered_lt uid hnum.waiting
    · exact hinv.issued_lt issue hold
  issued_numbered := by
    intro issue hissue hwaiting
    rw [hnum.unnumbered] at hwaiting
    obtain ⟨hold, hne⟩ := List.mem_filter.mp hwaiting
    rcases List.mem_cons.mp (hnum.issued ▸ hissue) with rfl | hissue'
    · simp at hne
    · exact hinv.issued_numbered issue hissue' hold
  token_eq := by
    intro unit hunit other hissue
    obtain ⟨old, hold, rfl⟩ := hnum.live unit hunit
    rw [setToken_uid, hnum.issued] at hissue
    rcases List.mem_cons.mp hissue with heq | hissue'
    · obtain ⟨huid, rfl⟩ := Prod.mk.inj heq
      simp [setToken, huid]
    · -- A unit with an older token is not the one that was waiting.
      have hne : old.uid ≠ uid := fun heq =>
        hinv.issued_numbered _ hissue' (heq ▸ hnum.waiting)
      simpa [setToken, hne] using hinv.token_eq old hold other hissue'

theorem SystemInv.step {system after : System} (hinv : SystemInv system) {action : Step}
    (hstep : system.step action = some after) : SystemInv after := by
  rcases step_cases hstep with hmoved | ⟨unit, hins⟩ | ⟨uid, token, hnum⟩
  · exact hinv.moved hmoved
  · exact hinv.inserted hins
  · exact hinv.numbered hnum

theorem run_inv {steps : List Step} {system : System} (hrun : run steps = some system) :
    SystemInv system :=
  runMachine_preserves SystemInv (fun _ _ _ hinv hstep => hinv.step hstep) init_inv hrun

/-! ## The calls of one thread are runs of the system -/

/-- A unit that is not held anywhere is not seen by the assignment of its token. -/
theorem Alarm.assign_eq_self {alarm : Alarm} {uid token : Nat}
    (hnone : ∀ unit ∈ alarm.detached, unit.uid ≠ uid) : Alarm.assign uid token alarm = alarm := by
  have hkeep : ∀ unit ∈ alarm.detached, setToken uid token unit = unit := fun unit hunit =>
    if_neg (hnone unit hunit)
  obtain ⟨rearming, batch⟩ := alarm
  have hbatch : batch.map (setToken uid token) = batch :=
    (List.map_congr_left fun unit hunit =>
      hkeep unit (List.mem_append_right _ hunit)).trans (List.map_id batch)
  cases rearming with
  | none => simp [Alarm.assign, hbatch]
  | some entry =>
      have hentry := hkeep entry (by simp [Alarm.detached])
      simp [Alarm.assign, hbatch, hentry]

/-- A relative call is its two critical sections. -/
theorem relative_as_run {system : System} (hinv : SystemInv system) {call : AddCall}
    {accepts : EventType → Bool} {junk : EventUnit} {now : Timeval} {mseconds : Nat}
    {type : EventType} {handler : Nat}
    (hbegin : system.begin call = system.insertUnnumbered
      (insertRelative accepts system.queue junk now mseconds type handler))
    (hcall : call.run system.queue = addRelative accepts system.queue junk now mseconds type
      handler) :
    ∃ steps final, runMachine step system steps = some final ∧
      final.queue = (call.run system.queue).2 ∧ final.alarms = system.alarms ∧
      final.fired = system.fired := by
  rw [hcall, addRelative]
  cases hgrown : insertRelative accepts system.queue junk now mseconds type handler with
  | none => exact ⟨[], system, rfl, rfl, rfl, rfl⟩
  | some grown =>
      have hfirst : system.begin call = { system with
          queue := grown, unnumbered := system.queue.created :: system.unnumbered } := by
        rw [hbegin, hgrown, insertUnnumbered]
      refine ⟨[.begin call, .number system.queue.created], { system with
        queue := grown.assignToken system.queue.created
        alarms := system.alarms.map (Alarm.assign system.queue.created grown.listToken)
        unnumbered := (system.queue.created :: system.unnumbered).filter
          fun other => other ≠ system.queue.created
        issued := (system.queue.created, grown.listToken) :: system.issued }, ?_, rfl, ?_, rfl⟩
      · rw [runMachine_cons, step, Option.bind_some, hfirst, runMachine_cons, step,
          if_pos List.mem_cons_self, Option.bind_some, runMachine_nil]
      · refine (List.map_congr_left fun alarm halarm => ?_).trans (List.map_id _)
        apply Alarm.assign_eq_self
        intro unit hunit
        exact (hinv.live_lt unit (mem_live.mpr (Or.inr ⟨alarm, halarm, hunit⟩))).ne

theorem add_as_run {system : System} (hinv : SystemInv system) (call : AddCall) :
    ∃ steps final, runMachine step system steps = some final ∧
      final.queue = (call.run system.queue).2 ∧ final.alarms = system.alarms ∧
      final.fired = system.fired := by
  cases call with
  | later junk now mseconds type handler => exact relative_as_run hinv rfl rfl
  | period junk now mseconds type handler => exact relative_as_run hinv rfl rfl
  | absTimed junk absTime type handler =>
      refine ⟨[.begin (.absTimed junk absTime type handler)], _, rfl, ?_⟩
      by_cases hnull : handler = 0
      · simp [begin, AddCall.run, addAbsTimedEvent, hnull]
      · simp [begin, AddCall.run, hnull]

/-- Two runs in a row. -/
theorem chain_runs {system mid final : System} {first second : List Step}
    (hfirst : runMachine step system first = some mid)
    (hsecond : runMachine step mid second = some final) :
    runMachine step system (first ++ second) = some final := by
  rw [runMachine_append, hfirst, Option.bind_some, hsecond]

theorem SystemInv.run {system final : System} (hinv : SystemInv system) {steps : List Step}
    (hrun : runMachine System.step system steps = some final) : SystemInv final :=
  runMachine_preserves SystemInv (fun _ _ _ hnow hstep => hnow.step hstep) hinv hrun

theorem adds_as_run {system : System} (hinv : SystemInv system) (calls : List AddCall) :
    ∃ steps final, runMachine step system steps = some final ∧
      final.queue = system.queue.runAdds calls ∧ final.alarms = system.alarms ∧
      final.fired = system.fired := by
  induction calls generalizing system with
  | nil => exact ⟨[], system, rfl, rfl, rfl, rfl⟩
  | cons call calls ih =>
      obtain ⟨first, mid, hfirst, hqueue, halarms, hfired⟩ := add_as_run hinv call
      obtain ⟨second, final, hsecond, hqueue', halarms', hfired'⟩ := ih (hinv.run hfirst)
      refine ⟨first ++ second, final, chain_runs hfirst hsecond, ?_, halarms'.trans halarms,
        hfired'.trans hfired⟩
      rw [hqueue', hqueue]
      rfl

/-- One turn of the loop of `handleAlarmEvent` in activation `k`. -/
theorem entry_as_run {system : System} (hinv : SystemInv system) {k : Nat} {entry : EventUnit}
    {batch : List EventUnit} (halarm : system.alarms[k]? = some ⟨none, entry :: batch⟩)
    (env : FireEnv) :
    ∃ steps final, runMachine step system steps = some final ∧
      final.queue = system.queue.processEntry env entry ∧
      final.alarms[k]? = some ⟨none, batch⟩ ∧ final.fired = entry :: system.fired := by
  have hlt : k < system.alarms.length := (List.getElem?_eq_some_iff.mp halarm).1
  let invoked : System := { system with
    alarms := system.alarms.set k ⟨if entry.type.isPeriod then some entry else none, batch⟩
    fired := entry :: system.fired }
  have hfire : runMachine step system [.fire k] = some invoked := by
    rw [runMachine_cons, step, halarm, Option.bind_some, runMachine_nil]
  have hslot : invoked.alarms[k]? =
      some ⟨if entry.type.isPeriod then some entry else none, batch⟩ := by
    simp [invoked, hlt]
  -- A periodic unit is re-armed by a step of its own.
  have hrearm : entry.type.isPeriod = true → ∃ steps final,
      runMachine step system steps = some final ∧
        final.queue = system.queue.rearm env.rearmAt entry ∧
        final.alarms[k]? = some ⟨none, batch⟩ ∧ final.fired = entry :: system.fired := by
    intro hperiod
    rw [hperiod, if_pos rfl] at hslot
    refine ⟨[.fire k] ++ [.rearm k env.rearmAt], { invoked with
      queue := invoked.queue.rearm env.rearmAt entry
      alarms := invoked.alarms.set k ⟨none, batch⟩ }, chain_runs hfire ?_, rfl, ?_, rfl⟩
    · rw [runMachine_cons, step, hslot, Option.bind_some, runMachine_nil]
    · simp [invoked, hlt]
  cases htype : entry.type with
  | timedCallback =>
      obtain ⟨steps, final, hrun, hqueue, halarms, hfired⟩ :=
        adds_as_run (hinv.run hfire) env.adds
      refine ⟨[.fire k] ++ steps, final, chain_runs hfire hrun, ?_, ?_, hfired⟩
      · rw [hqueue, processEntry, htype]
      · rw [halarms, hslot, htype]
        rfl
  | timedRecycle =>
      refine ⟨[.fire k], invoked, hfire, ?_, ?_, rfl⟩
      · rw [processEntry, htype]
      · rw [hslot, htype]
        rfl
  | periodCondition =>
      rw [processEntry, htype]
      exact hrearm (by rw [htype]; rfl)
  | periodSemaphore =>
      rw [processEntry, htype]
      exact hrearm (by rw [htype]; rfl)

theorem batch_as_run {system : System} (hinv : SystemInv system) {k : Nat}
    {batch : List EventUnit} (halarm : system.alarms[k]? = some ⟨none, batch⟩)
    (env : Nat → FireEnv) (turn : Nat) :
    ∃ steps final, runMachine step system steps = some final ∧
      final.queue = (processBatch env turn batch system.queue).2 ∧
      final.fired = batch.reverse ++ system.fired := by
  induction batch generalizing system turn with
  | nil => exact ⟨[], system, rfl, rfl, rfl⟩
  | cons entry batch ih =>
      obtain ⟨first, mid, hfirst, hqueue, hslot, hfired⟩ := entry_as_run hinv halarm (env turn)
      obtain ⟨second, final, hsecond, hqueue', hfired'⟩ := ih (hinv.run hfirst) hslot (turn + 1)
      refine ⟨first ++ second, final, chain_runs hfirst hsecond, ?_, ?_⟩
      · rw [hqueue', hqueue]
        rfl
      · rw [hfired', hfired, List.reverse_cons, List.append_assoc, List.singleton_append]

/-- `handleAlarmEvent` as one thread executes it is a run of the system: it fires
the same units in the same order and leaves the same queue. -/
theorem handleAlarmEvent_as_run {system : System} (hinv : SystemInv system) (timeNow : Timeval)
    (env : Nat → FireEnv) :
    ∃ steps final, runMachine step system steps = some final ∧
      final.queue = (system.queue.handleAlarmEvent timeNow env).2 ∧
      final.fired = (system.queue.handleAlarmEvent timeNow env).1.reverse ++ system.fired := by
  let detached : System := { system with
    queue := (system.queue.detach timeNow).2
    alarms := system.alarms ++ [⟨none, (system.queue.detach timeNow).1⟩] }
  have hdetach : runMachine step system [.alarm timeNow] = some detached := rfl
  have hslot : detached.alarms[system.alarms.length]? =
      some ⟨none, (system.queue.detach timeNow).1⟩ := by
    simp [detached]
  obtain ⟨steps, final, hrun, hqueue, hfired⟩ :=
    batch_as_run (hinv.run hdetach) hslot env 0
  refine ⟨[.alarm timeNow] ++ steps, final, chain_runs hdetach hrun, hqueue, ?_⟩
  rw [hfired, handleAlarmEvent, processBatch_fired]

/-! ## Units that are gone -/

/-- A unit that existed and is neither in the list nor held by an alarm. -/
def Gone (system : System) (uid : Nat) : Prop :=
  uid < system.queue.created ∧ ∀ unit ∈ system.live, unit.uid ≠ uid

/-- A unit that is gone stays gone, and its handler is not invoked. -/
theorem Gone.step {system after : System} {uid : Nat} (hgone : system.Gone uid) {action : Step}
    (hstep : system.step action = some after) :
    after.Gone uid ∧ after.firings uid = system.firings uid := by
  obtain ⟨hlt, hnone⟩ := hgone
  rcases step_cases hstep with hmoved | ⟨unit, hins⟩ | ⟨other, token, hnum⟩
  · refine ⟨⟨hmoved.created ▸ hlt, ?_⟩, ?_⟩
    · intro unit hunit
      obtain ⟨old, hold, huid, _⟩ := hmoved.live unit hunit
      exact huid ▸ hnone old hold
    · rcases hmoved.fired with hsame | ⟨entry, hentry, hfired⟩
      · rw [firings, hsame, firings]
      · rw [firings, hfired, List.filter_cons_of_neg (by simpa using hnone entry hentry), firings]
  · refine ⟨⟨hins.created ▸ Nat.lt_succ_of_lt hlt, ?_⟩, by rw [firings, hins.fired, firings]⟩
    intro other hother
    rcases hins.live other hother with rfl | hold
    · exact hins.uid ▸ hlt.ne'
    · exact hnone other hold
  · refine ⟨⟨hnum.created ▸ hlt, ?_⟩, by rw [firings, hnum.fired, firings]⟩
    intro unit hunit
    obtain ⟨old, hold, rfl⟩ := hnum.live unit hunit
    rw [setToken_uid]
    exact hnone old hold

end System

end McuProxy.Net
