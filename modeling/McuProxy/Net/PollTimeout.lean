/-
# How long the poller sleeps

Before it waits, `SocketPoller::threadLoop` asks its timer queue for the time
to the next event and turns it into milliseconds for `epoll_wait`. Two things
make that number right. The list is ordered, so its first unit is the earliest.
And no unit is further away than the largest delay the queue admits, so the
milliseconds fit in an `int`: a longer delay would overflow the multiplication,
and a negative time-out waits for ever.

The second fact is about the clock. A call reads it before it takes the lock, so
the reading of a unit is some earlier value of the clock and not the one at its
insertion; the clock never goes back, and that is enough. The clock is part of
the state here, and every reading is one the clock has passed.
-/

import McuProxy.Math.CSemantics
import McuProxy.Net.Cancellation

namespace McuProxy.Net

open McuProxy.Math McuProxy.Time McuProxy.Time.Timeval TimedEventQ

namespace TimedEventQ

/-- `abstimeToNextEvent`: the status and the deadline. -/
def abstimeToNextEvent (queue : TimedEventQ) : Int × Timeval :=
  match queue.mList with
  | [] => (-1, infinity)
  | unit :: _ => (0, unit.tvAbsolute)

/-- `timeToNextEvent` at the clock reading `timeNow`. -/
def timeToNextEvent (queue : TimedEventQ) (timeNow : Timeval) : Int × Timeval :=
  let next := queue.abstimeToNextEvent
  (next.1, timeInterval next.2 timeNow)

/-- `time_out` of `threadLoop`, undefined where the arithmetic of `int` is. -/
def timeOut (queue : TimedEventQ) (timeNow : Timeval) : Option Int := do
  let remain := (queue.timeToNextEvent timeNow).2
  let sec ← int32 remain.tvSec
  let usec ← int32 remain.tvUsec
  let mseconds ← int32 (sec * 1000)
  int32 (mseconds + usec.tdiv 1000)

end TimedEventQ

namespace System

/-- `AddTimedCallback`, up to the first critical section of the queue. -/
def addTimedCallback (system : System) (junk : EventUnit) (now : Timeval)
    (mseconds cbfunc : Nat) : System :=
  if cbfunc = 0 ∨ mseconds = 0 then system
  else system.begin (.later junk now mseconds .timedCallback cbfunc)

/-- `AddPeriodSignal`, up to the first critical section of the queue. -/
def addPeriodSignal (system : System) (junk : EventUnit) (now : Timeval)
    (mseconds cond : Nat) : System :=
  if cond = 0 ∨ mseconds = 0 then system
  else system.begin (.period junk now mseconds .periodCondition cond)

end System

/-- The timers of a poller, and what the clock shows. -/
structure PollTimers where
  system : System
  clock : Timeval
  deriving DecidableEq, Repr

namespace PollTimers

/-- A step of some thread, or of the clock. A step that reads the clock carries
its reading. -/
inductive Step
  | tick (timeNow : Timeval)
  | addTimedCallback (junk : EventUnit) (now : Timeval) (mseconds cbfunc : Nat)
  | addPeriodSignal (junk : EventUnit) (now : Timeval) (mseconds cond : Nat)
  | number (uid : Nat)
  | discardEvent (id : Nat)
  | alarm (timeNow : Timeval)
  | fire (k : Nat)
  | rearm (k : Nat) (now : Timeval)

/-- A value that `gettimeofday` may have returned up to now. -/
def Shown (timers : PollTimers) (reading : Timeval) : Prop :=
  reading.Normalised ∧ reading ≤ timers.clock

instance (timers : PollTimers) (reading : Timeval) : Decidable (timers.Shown reading) :=
  inferInstanceAs (Decidable (_ ∧ _))

/-- A step of the queue while the clock stands still. -/
def within (timers : PollTimers) (action : System.Step) : Option PollTimers :=
  (timers.system.step action).map fun system => { timers with system := system }

/-- The step function. The clock does not go back, and no step reads a value that
the clock has not shown. -/
def step (timers : PollTimers) : Step → Option PollTimers
  | .tick timeNow =>
      if timeNow.Normalised ∧ timers.clock ≤ timeNow then some { timers with clock := timeNow }
      else none
  | .addTimedCallback junk now mseconds cbfunc =>
      if timers.Shown now then
        some { timers with system := timers.system.addTimedCallback junk now mseconds cbfunc }
      else none
  | .addPeriodSignal junk now mseconds cond =>
      if timers.Shown now then
        some { timers with system := timers.system.addPeriodSignal junk now mseconds cond }
      else none
  | .number uid => timers.within (.number uid)
  | .discardEvent id => timers.within (.del id)
  | .alarm timeNow => if timers.Shown timeNow then timers.within (.alarm timeNow) else none
  | .fire k => timers.within (.fire k)
  | .rearm k now => if timers.Shown now then timers.within (.rearm k now) else none

/-- A run from the fresh queue, the clock showing `start`. -/
def run (start : Timeval) (steps : List Step) : Option PollTimers :=
  runMachine step ⟨System.init, start⟩ steps

/-- A unit whose deadline is within reach of the clock. -/
structure Timely (clock : Timeval) (unit : EventUnit) : Prop where
  normalised : unit.tvAbsolute.Normalised
  within_reach : unit.tvAbsolute.micros ≤ clock.micros + maxPeriodDelay * 1000
  period_ok : PeriodOk unit

/-- What every reachable state satisfies. -/
structure ClockInv (timers : PollTimers) : Prop where
  clock : timers.clock.Normalised
  system : System.SystemInv timers.system
  queue : QueueInv timers.system.queue
  timely : ∀ unit ∈ timers.system.live, Timely timers.clock unit

/-- The deadline of a unit is a value the clock has shown and a delay. -/
theorem Timely.of_reading {timers : PollTimers} (hinv : ClockInv timers) {reading : Timeval}
    (hshown : timers.Shown reading) {unit : EventUnit} {mseconds : Nat}
    (hdeadline : unit.tvAbsolute = timePlus reading mseconds) (hperiod : PeriodOk unit) :
    Timely timers.clock unit where
  normalised := by
    rw [hdeadline]
    exact timePlus_normalised hshown.1 mseconds
  within_reach := by
    rw [hdeadline]
    have hpassed : reading.micros ≤ timers.clock.micros :=
      (le_iff_micros_le hshown.1 hinv.clock).mp hshown.2
    have hadded := timePlus_micros_le reading mseconds
    omega
  period_ok := hperiod

theorem Timely.tick {clock later : Timeval} {unit : EventUnit} (htimely : Timely clock unit)
    (hclock : clock.Normalised) (hlater : later.Normalised) (hle : clock ≤ later) :
    Timely later unit where
  normalised := htimely.normalised
  within_reach := by
    have hmicros := (le_iff_micros_le hclock hlater).mp hle
    have hreach := htimely.within_reach
    omega
  period_ok := htimely.period_ok

theorem systemInv_begin {system : System} (hinv : System.SystemInv system) (call : AddCall) :
    System.SystemInv (system.begin call) :=
  have hstep : system.step (.begin call) = some (system.begin call) := rfl
  hinv.step hstep

/-- A new unit enters the list without a number. -/
theorem ClockInv.insertUnnumbered {timers : PollTimers} (hinv : ClockInv timers)
    {accepts : EventType → Bool} {junk : EventUnit} {now : Timeval} {mseconds : Nat}
    {type : EventType} {handler : Nat} (hshown : timers.Shown now)
    (hperiod : type.isPeriod = true → junk.period = mseconds) {after : System}
    (hafter : after = timers.system.insertUnnumbered
      (insertRelative accepts timers.system.queue junk now mseconds type handler))
    (hsystem : System.SystemInv after) : ClockInv { timers with system := after } := by
  subst hafter
  by_cases hrefuse : handler = 0 ∨ mseconds > maxPeriodDelay ∨ accepts type = false
  · simpa only [insertRelative, hrefuse, if_true, System.insertUnnumbered] using hinv
  · have hadmitted : mseconds ≤ maxPeriodDelay := by
      by_contra hlong
      exact hrefuse (Or.inr (Or.inl (not_le.mp hlong)))
    simp only [insertRelative, hrefuse, if_false, System.insertUnnumbered] at hsystem ⊢
    have hnew : PeriodOk { junk with
        type := type, handler := handler, tvAbsolute := timePlus now mseconds
        uid := timers.system.queue.created } := fun htype => (hperiod htype).trans_le hadmitted
    refine ⟨hinv.clock, hsystem, ?_, ?_⟩
    · exact addEventInternal_inv (hinv.queue.recount (Nat.le_succ _)) (Nat.lt_succ_self _) hnew
    · intro unit hunit
      rcases System.mem_live.mp hunit with hmem | hdetached
      · rcases mem_addEventInternal.mp hmem with rfl | hold
        · exact Timely.of_reading hinv hshown rfl hnew
        · exact hinv.timely unit (System.mem_live.mpr (Or.inl hold))
      · exact hinv.timely unit (System.mem_live.mpr (Or.inr hdetached))

/-- A number changes neither the order nor the deadline of a unit. -/
theorem queueInv_assignToken {queue : TimedEventQ} (hinv : QueueInv queue) (uid : Nat) :
    QueueInv (queue.assignToken uid) := by
  have hkept : ∀ unit : EventUnit, let numbered := System.setToken uid queue.listToken unit
      numbered.tvAbsolute = unit.tvAbsolute ∧ numbered.stamp = unit.stamp ∧
        numbered.uid = unit.uid ∧ (PeriodOk unit → PeriodOk numbered) := by
    intro unit numbered
    simp only [numbered, System.setToken]
    split <;> exact ⟨rfl, rfl, rfl, fun hok => hok⟩
  have hmem : ∀ unit ∈ (queue.assignToken uid).mList, ∃ old ∈ queue.mList,
      System.setToken uid queue.listToken old = unit := fun unit hunit => List.mem_map.mp hunit
  constructor
  · apply List.pairwise_map.mpr
    apply hinv.sorted.imp
    intro first second hearlier
    obtain ⟨hfirst, hfirstStamp, -⟩ := hkept first
    obtain ⟨hsecond, hsecondStamp, -⟩ := hkept second
    show Earlier (System.setToken uid queue.listToken first)
      (System.setToken uid queue.listToken second)
    rw [Earlier, hfirst, hsecond, hfirstStamp, hsecondStamp]
    exact hearlier
  · intro unit hunit
    obtain ⟨old, hold, rfl⟩ := hmem unit hunit
    rw [(hkept old).2.1]
    exact hinv.stamp_lt old hold
  · intro unit hunit
    obtain ⟨old, hold, rfl⟩ := hmem unit hunit
    rw [(hkept old).2.2.1]
    exact hinv.uid_lt old hold
  · intro unit hunit
    obtain ⟨old, hold, rfl⟩ := hmem unit hunit
    exact (hkept old).2.2.2 (hinv.period_ok old hold)

theorem Timely.setToken {clock : Timeval} {unit : EventUnit} (htimely : Timely clock unit)
    (uid token : Nat) : Timely clock (System.setToken uid token unit) := by
  unfold System.setToken
  split
  · exact ⟨htimely.normalised, htimely.within_reach, htimely.period_ok⟩
  · exact htimely

/-- The steps of the queue that insert no new unit. -/
theorem ClockInv.within {timers after : PollTimers} (hinv : ClockInv timers)
    {action : System.Step} (hshown : ∀ k now, action = .rearm k now → timers.Shown now)
    (hbegin : ∀ call, action ≠ .begin call) (hstep : timers.within action = some after) :
    ClockInv after := by
  obtain ⟨system, hsystem, rfl⟩ := Option.map_eq_some_iff.mp hstep
  have hinv' : System.SystemInv system := hinv.system.step hsystem
  cases action with
  | begin call => exact absurd rfl (hbegin call)
  | number uid =>
      obtain ⟨hwaiting, rfl⟩ := System.number_eq_some hsystem
      refine ⟨hinv.clock, hinv', queueInv_assignToken hinv.queue uid, ?_⟩
      intro unit hunit
      obtain ⟨old, hold, rfl⟩ := (System.number_numbered hwaiting).live unit hunit
      exact (hinv.timely old hold).setToken uid _
  | del token =>
      obtain rfl := Option.some.inj hsystem
      exact ⟨hinv.clock, hinv', delTimedEvent_inv hinv.queue token,
        fun unit hunit => hinv.timely unit (System.mem_live_del hunit)⟩
  | alarm timeNow =>
      obtain rfl := Option.some.inj hsystem
      exact ⟨hinv.clock, hinv', detach_inv hinv.queue timeNow,
        fun unit hunit => hinv.timely unit (System.mem_live_alarm hunit)⟩
  | fire k =>
      obtain ⟨entry, batch, halarm, rfl⟩ := System.fire_eq_some hsystem
      exact ⟨hinv.clock, hinv', hinv.queue,
        fun unit hunit => hinv.timely unit (System.mem_live_fire halarm hunit)⟩
  | rearm k now =>
      obtain ⟨entry, batch, halarm, rfl⟩ := System.rearm_eq_some hsystem
      have hlive := System.mem_live_rearming halarm
      have hperiod : PeriodOk entry := (hinv.timely entry hlive).period_ok
      refine ⟨hinv.clock, hinv', ?_, ?_⟩
      · exact addEventInternal_inv hinv.queue (hinv.system.live_lt entry hlive) hperiod
      · intro unit hunit
        rcases System.mem_live_rearm halarm hunit with rfl | hold
        · exact Timely.of_reading hinv (hshown k now rfl) rfl hperiod
        · exact hinv.timely unit hold

/-- Every step keeps the invariant. -/
theorem ClockInv.step {timers after : PollTimers} (hinv : ClockInv timers) {action : Step}
    (hstep : timers.step action = some after) : ClockInv after := by
  cases action with
  | tick timeNow =>
      obtain ⟨hforward, hafter⟩ := Option.ite_none_right_eq_some.mp hstep
      obtain rfl := Option.some.inj hafter
      refine ⟨hforward.1, hinv.system, hinv.queue, ?_⟩
      intro unit hunit
      exact (hinv.timely unit hunit).tick hinv.clock hforward.1 hforward.2
  | addTimedCallback junk now mseconds cbfunc =>
      obtain ⟨hshown, hafter⟩ := Option.ite_none_right_eq_some.mp hstep
      obtain rfl := Option.some.inj hafter
      unfold System.addTimedCallback
      split
      · exact hinv
      · refine hinv.insertUnnumbered hshown (fun htype => ?_) rfl (systemInv_begin hinv.system _)
        cases htype
  | addPeriodSignal junk now mseconds cond =>
      obtain ⟨hshown, hafter⟩ := Option.ite_none_right_eq_some.mp hstep
      obtain rfl := Option.some.inj hafter
      unfold System.addPeriodSignal
      split
      · exact hinv
      · exact hinv.insertUnnumbered hshown (fun _ => rfl) rfl (systemInv_begin hinv.system _)
  | number uid => exact hinv.within (by simp) (by simp) hstep
  | discardEvent id => exact hinv.within (by simp) (by simp) hstep
  | alarm timeNow =>
      obtain ⟨-, hwithin⟩ := Option.ite_none_right_eq_some.mp hstep
      exact hinv.within (by simp) (by simp) hwithin
  | fire k => exact hinv.within (by simp) (by simp) hstep
  | rearm k now =>
      obtain ⟨hshown, hwithin⟩ := Option.ite_none_right_eq_some.mp hstep
      apply hinv.within _ (by simp) hwithin
      intro other reading heq
      obtain ⟨-, rfl⟩ := System.Step.rearm.inj heq
      exact hshown

theorem run_inv {start : Timeval} (hstart : start.Normalised) {steps : List Step}
    {timers : PollTimers} (hrun : run start steps = some timers) : ClockInv timers := by
  refine runMachine_preserves ClockInv (fun _ _ _ hinv hstep => hinv.step hstep) ?_ hrun
  refine ⟨hstart, System.init_inv, init_inv, ?_⟩
  intro unit hunit
  cases hunit

/-- The first unit of an ordered list has the earliest deadline. -/
theorem earliest_of_sorted {first : EventUnit} {rest : List EventUnit}
    (hsorted : (first :: rest).Pairwise Earlier) :
    ∀ other ∈ first :: rest, first.tvAbsolute ≤ other.tvAbsolute := by
  intro other hother
  rcases List.mem_cons.mp hother with rfl | hrest
  · exact le_rfl
  · rcases List.rel_of_pairwise_cons hsorted hrest with hless | ⟨heq, -⟩
    · exact hless.le
    · exact heq.le

/-- A delay that is admissible has a time-out, and it is its whole milliseconds. -/
theorem timeOut_of_interval {queue : TimedEventQ} {timeNow : Timeval}
    (hdelay : (queue.timeToNextEvent timeNow).2.Delay)
    (hshort : (queue.timeToNextEvent timeNow).2.micros ≤ maxPeriodDelay * 1000) :
    ∃ mseconds, queue.timeOut timeNow = some mseconds ∧ 0 ≤ mseconds ∧
      mseconds * 1000 ≤ (queue.timeToNextEvent timeNow).2.micros ∧
      (queue.timeToNextEvent timeNow).2.micros < (mseconds + 1) * 1000 := by
  simp only [timeOut]
  generalize (queue.timeToNextEvent timeNow).2 = remain at hdelay hshort
  obtain ⟨hsec, husec, hmillion⟩ := hdelay
  simp only [micros, maxPeriodDelay] at hshort ⊢
  have hdiv : remain.tvUsec.tdiv 1000 = remain.tvUsec / 1000 := Int.tdiv_eq_ediv_of_nonneg husec
  refine ⟨remain.tvSec * 1000 + remain.tvUsec / 1000, ?_, by omega, by omega, by omega⟩
  have hsec32 : int32 remain.tvSec = some remain.tvSec := int32_eq_some (by omega) (by omega)
  have husec32 : int32 remain.tvUsec = some remain.tvUsec := int32_eq_some (by omega) (by omega)
  have hproduct : int32 (remain.tvSec * 1000) = some (remain.tvSec * 1000) :=
    int32_eq_some (by omega) (by omega)
  simp only [hsec32, husec32, hproduct, hdiv, Option.bind_eq_bind, Option.bind_some]
  exact int32_eq_some (by omega) (by omega)

/-- The poller never oversleeps. From any reached state with an event in the
list, at any later reading of the clock, the time-out is computed without
overflow and is the time to the earliest deadline in whole milliseconds, or zero
when that has passed. -/
theorem timeOut_exact {start : Timeval} (hstart : start.Normalised) {steps : List Step}
    {timers : PollTimers} (hrun : run start steps = some timers)
    (hpending : timers.system.queue.mList ≠ []) {now : Timeval} (hnow : now.Normalised)
    (hlater : timers.clock ≤ now) :
    ∃ unit ∈ timers.system.queue.mList,
      (∀ other ∈ timers.system.queue.mList,
        unit.tvAbsolute.micros ≤ other.tvAbsolute.micros) ∧
      ∃ mseconds, timers.system.queue.timeOut now = some mseconds ∧
        0 ≤ mseconds ∧ mseconds ≤ 2146483 ∧
        mseconds * 1000 ≤ max 0 (unit.tvAbsolute.micros - now.micros) ∧
        max 0 (unit.tvAbsolute.micros - now.micros) < (mseconds + 1) * 1000 := by
  have hinv := run_inv hstart hrun
  obtain ⟨first, rest, hlist⟩ := List.exists_cons_of_ne_nil hpending
  have htimely : ∀ unit ∈ timers.system.queue.mList, Timely timers.clock unit :=
    fun unit hunit => hinv.timely unit (System.mem_live.mpr (Or.inl hunit))
  have hmem : first ∈ timers.system.queue.mList := by
    rw [hlist]
    exact List.mem_cons_self
  have hnext : (timers.system.queue.timeToNextEvent now).2 =
      timeInterval first.tvAbsolute now := by
    simp only [timeToNextEvent, abstimeToNextEvent, hlist]
  obtain ⟨hdelay, hmicros⟩ := timeInterval_spec (htimely first hmem).normalised hnow
  -- the clock has moved on since the deadline was within reach of it
  have hclock := (le_iff_micros_le hinv.clock hnow).mp hlater
  have hreach := (htimely first hmem).within_reach
  have hshort : (timeInterval first.tvAbsolute now).micros ≤ maxPeriodDelay * 1000 := by
    rw [hmicros]
    omega
  rw [← hnext] at hdelay hmicros hshort
  obtain ⟨mseconds, hvalue, hnonneg, hlow, hhigh⟩ := timeOut_of_interval hdelay hshort
  rw [hmicros] at hlow hhigh hshort
  simp only [maxPeriodDelay] at hshort
  refine ⟨first, hmem, ?_, mseconds, hvalue, hnonneg, by omega, hlow, hhigh⟩
  intro other hother
  have hearliest : first.tvAbsolute ≤ other.tvAbsolute := by
    refine earliest_of_sorted ?_ other (hlist ▸ hother)
    exact hlist ▸ hinv.queue.sorted
  exact (le_iff_micros_le (htimely first hmem).normalised (htimely other hother).normalised).mp
    hearliest

/-- A callback in one millisecond and a signal as late as can be, the callback
added on a reading that is half a second old when it gets its lock. -/
def mixedDelays : List Step :=
  [.addPeriodSignal ⟨zero, .timedCallback, 0, 0, 0, 0, 0⟩ ⟨100, 0⟩ 2146483 1,
    .tick ⟨100, 500000⟩,
    .addTimedCallback ⟨zero, .timedCallback, 0, 0, 0, 0, 0⟩ ⟨100, 0⟩ 1 2,
    .number 0, .number 1, .alarm ⟨100, 500000⟩, .fire 0]

theorem timeOut_exact_mixed :
    ∃ timers, run ⟨100, 0⟩ mixedDelays = some timers ∧ timers.system.queue.mList ≠ [] ∧
      ∃ unit ∈ timers.system.queue.mList,
        (∀ other ∈ timers.system.queue.mList,
          unit.tvAbsolute.micros ≤ other.tvAbsolute.micros) ∧
        ∃ mseconds, timers.system.queue.timeOut ⟨100, 500001⟩ = some mseconds ∧
          0 ≤ mseconds ∧ mseconds ≤ 2146483 ∧
          mseconds * 1000 ≤ max 0 (unit.tvAbsolute.micros - micros ⟨100, 500001⟩) ∧
          max 0 (unit.tvAbsolute.micros - micros ⟨100, 500001⟩) < (mseconds + 1) * 1000 := by
  obtain ⟨timers, hrun⟩ := Option.isSome_iff_exists.mp
    (show (run ⟨100, 0⟩ mixedDelays).isSome = true by decide +kernel)
  have hshown : (run ⟨100, 0⟩ mixedDelays).all
      (fun timers => timers.clock = ⟨100, 500000⟩ ∧ timers.system.queue.mList ≠ []) = true := by
    decide +kernel
  simp only [hrun, Option.all_some, decide_eq_true_eq] at hshown
  refine ⟨timers, hrun, hshown.2, ?_⟩
  apply timeOut_exact (by decide) hrun hshown.2 (by decide)
  rw [hshown.1]
  decide

end PollTimers

end McuProxy.Net
