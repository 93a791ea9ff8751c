/-
# No wake-up is lost

The poller asks for the time to the next event and then waits for so long. An event
that is added in between may be due earlier; its call writes a token to a pipe that
the poller waits for as well. The call inserts the event first and writes last, the
poller empties the pipe first and looks at the list last. That order is what the
protocol rests on: as long as the poller waits, an event that it has not taken into
account is announced by a call that is still under way or by a token in the pipe.

The write does not block. When the pipe is full the token is dropped, and the tokens
that fill it serve instead.
-/

import McuProxy.Net.PollTimeout

namespace McuProxy.Net

open McuProxy.Math McuProxy.Time McuProxy.Time.Timeval TimedEventQ

/-- `time_out` of `threadLoop`, from the deadline that `abstimeToNextEvent` returned. -/
def pollTime (next timeNow : Timeval) : Option Int := do
  let remain := timeInterval next timeNow
  let sec ← int32 remain.tvSec
  let usec ← int32 remain.tvUsec
  let mseconds ← int32 (sec * 1000)
  int32 (mseconds + usec.tdiv 1000)

theorem timeOut_eq_pollTime (queue : TimedEventQ) (timeNow : Timeval) :
    queue.timeOut timeNow = pollTime queue.abstimeToNextEvent.2 timeNow := rfl

/-- Where the thread of the poller is: it works, or it has looked at the list when the
clock showed `seen`, or it has read the clock and waits. -/
inductive PollPhase
  | working
  | looked (next : Int × Timeval) (seen : Timeval)
  | waiting (timeOut : Option Int) (now : Timeval)
  deriving DecidableEq, Repr

/-- `SocketPoller` with its wake pipe. `waking` are the calls that have inserted and
numbered their unit and have yet to write to the pipe. -/
structure WakingPoller where
  timers : PollTimers
  pipe : Nat
  waking : List Nat
  phase : PollPhase
  deriving DecidableEq, Repr

namespace WakingPoller

/-- The tokens of four bytes that fit in a pipe. -/
def pipeTokens : Nat := 16384

/-- The tokens that `handleRead` takes at once. -/
def readTokens : Nat := 128

/-- A step of some thread. The alarms are those of the poller itself. -/
inductive Step
  | timers (action : PollTimers.Step)
  | wake (uid : Nat)
  | look
  | read (timeNow : Timeval)
  | back
  | handleRead

/-- The steps of `handleAlarmEvent`, which the poller takes while it works. -/
def ofAlarm : PollTimers.Step → Bool
  | .alarm _ | .fire _ | .rearm _ _ => true
  | _ => false

/-- The calls that write to the pipe behind this step. -/
def numbered : PollTimers.Step → List Nat
  | .number uid => [uid]
  | _ => []

/-- The step function. -/
def step (poller : WakingPoller) : Step → Option WakingPoller
  | .timers action =>
      if ofAlarm action = true ∧ poller.phase ≠ .working then none
      else (poller.timers.step action).map fun timers =>
        { poller with
          timers := timers
          waking := numbered action ++ poller.waking }
  | .wake uid =>
      if uid ∈ poller.waking then
        some { poller with
          waking := poller.waking.erase uid
          pipe := if poller.pipe < pipeTokens then poller.pipe + 1 else poller.pipe }
      else none
  | .look =>
      if poller.phase = .working then
        some { poller with
          phase := .looked poller.timers.system.queue.abstimeToNextEvent poller.timers.clock }
      else none
  | .read timeNow =>
      match poller.phase with
      | .looked next seen =>
          if poller.timers.Shown timeNow ∧ seen ≤ timeNow then
            some { poller with phase := .waiting (pollTime next.2 timeNow) timeNow }
          else none
      | _ => none
  | .back =>
      match poller.phase with
      | .waiting _ _ => some { poller with phase := .working }
      | _ => none
  | .handleRead =>
      if poller.phase = .working then some { poller with pipe := poller.pipe - readTokens }
      else none

/-- A run from a fresh poller, the clock showing `start`. -/
def run (start : Timeval) (steps : List Step) : Option WakingPoller :=
  runMachine step ⟨⟨System.init, start⟩, 0, [], .working⟩ steps

/-- A unit whose call is under way, or one of the units announced by the pipe. -/
def Announced (poller : WakingPoller) (unit : EventUnit) : Prop :=
  poller.pipe ≠ 0 ∨ unit.uid ∈ poller.timers.system.unnumbered ∨ unit.uid ∈ poller.waking

/-- Every unit of the list is announced, or not due before the deadline that was
returned. -/
def Covers (poller : WakingPoller) (next : Int × Timeval) : Prop :=
  ∀ unit ∈ poller.timers.system.queue.mList,
    poller.Announced unit ∨ next.1 = 0 ∧ next.2 ≤ unit.tvAbsolute

/-- A deadline that was within reach of the clock. -/
def Within (next : Int × Timeval) (seen : Timeval) : Prop :=
  next.1 = 0 → next.2.Normalised ∧ next.2.micros ≤ seen.micros + maxPeriodDelay * 1000

/-- What the poller has computed is still good. -/
inductive Watched (poller : WakingPoller) : Prop
  | working (hphase : poller.phase = .working)
  | looked {next : Int × Timeval} {seen : Timeval} (hphase : poller.phase = .looked next seen)
      (hcovers : poller.Covers next) (hwithin : Within next seen) (hseen : seen.Normalised)
  | waiting {next : Int × Timeval} {seen now : Timeval}
      (hphase : poller.phase = .waiting (pollTime next.2 now) now)
      (hcovers : poller.Covers next) (hwithin : Within next seen) (hseen : seen.Normalised)
      (hnow : now.Normalised) (hle : seen ≤ now)

/-- What holds in every state of a run. -/
structure WakeInv (poller : WakingPoller) : Prop where
  timers : PollTimers.ClockInv poller.timers
  watched : poller.Watched

/-- The phase stays, and what was covered is. -/
theorem Watched.of_covers {poller after : WakingPoller} (hwatched : poller.Watched)
    (hphase : after.phase = poller.phase)
    (hcovers : poller.phase ≠ .working → ∀ next, poller.Covers next → after.Covers next) :
    after.Watched := by
  cases hwatched with
  | working hold => exact .working (hphase.trans hold)
  | looked hold hcover hwithin hseen =>
      exact .looked (hphase.trans hold) (hcovers (by rw [hold]; simp) _ hcover) hwithin hseen
  | waiting hold hcover hwithin hseen hnow hle =>
      exact .waiting (hphase.trans hold) (hcovers (by rw [hold]; simp) _ hcover) hwithin hseen hnow
        hle

/-- The list after a step of another thread: a unit of it was there with this deadline,
or its call is under way. A call that was under way before is so, or is about to write
to the pipe. -/
structure Grown (system after : System) (waking : List Nat) : Prop where
  units : ∀ unit ∈ after.queue.mList, unit.uid ∈ after.unnumbered ∨
    ∃ old ∈ system.queue.mList, old.uid = unit.uid ∧ old.tvAbsolute = unit.tvAbsolute
  calls : ∀ uid ∈ system.unnumbered, uid ∈ after.unnumbered ∨ uid ∈ waking

theorem Grown.refl (system : System) : Grown system system [] where
  units := fun unit hunit => Or.inr ⟨unit, hunit, rfl, rfl⟩
  calls := fun _ huid => Or.inl huid

theorem Grown.insertUnnumbered (system : System) (accepts : EventType → Bool) (junk : EventUnit)
    (now : Timeval) (mseconds : Nat) (type : EventType) (handler : Nat) :
    Grown system (system.insertUnnumbered
      (insertRelative accepts system.queue junk now mseconds type handler)) [] := by
  by_cases hrefuse : handler = 0 ∨ mseconds > maxPeriodDelay ∨ accepts type = false
  · simp only [insertRelative, hrefuse, if_true, System.insertUnnumbered]
    exact Grown.refl system
  · simp only [insertRelative, hrefuse, if_false, System.insertUnnumbered]
    refine ⟨fun unit hunit => ?_, fun uid huid => Or.inl (List.mem_cons_of_mem _ huid)⟩
    rcases mem_addEventInternal.mp hunit with rfl | hold
    · exact Or.inl List.mem_cons_self
    · exact Or.inr ⟨unit, hold, rfl, rfl⟩

theorem Grown.number {system after : System} {uid : Nat}
    (hstep : system.step (.number uid) = some after) : Grown system after [uid] := by
  obtain ⟨-, rfl⟩ := System.number_eq_some hstep
  refine ⟨fun unit hunit => ?_, fun other hother => ?_⟩
  · obtain ⟨old, hold, rfl⟩ := List.mem_map.mp hunit
    refine Or.inr ⟨old, hold, ?_⟩
    split <;> exact ⟨rfl, rfl⟩
  · by_cases heq : other = uid
    · exact Or.inr (List.mem_singleton.mpr heq)
    · exact Or.inl (List.mem_filter.mpr ⟨hother, decide_eq_true heq⟩)

/-- A step of a thread other than the poller's. -/
theorem grown_of_step {timers after : PollTimers} {action : PollTimers.Step}
    (hother : ofAlarm action = false) (hstep : timers.step action = some after) :
    Grown timers.system after.system (numbered action) := by
  cases action with
  | tick timeNow =>
      obtain ⟨-, hafter⟩ := Option.ite_none_right_eq_some.mp hstep
      obtain rfl := Option.some.inj hafter
      exact Grown.refl timers.system
  | addTimedCallback junk now mseconds cbfunc =>
      obtain ⟨-, hafter⟩ := Option.ite_none_right_eq_some.mp hstep
      obtain rfl := Option.some.inj hafter
      simp only [System.addTimedCallback]
      split
      · exact Grown.refl timers.system
      · exact Grown.insertUnnumbered ..
  | addPeriodSignal junk now mseconds cond =>
      obtain ⟨-, hafter⟩ := Option.ite_none_right_eq_some.mp hstep
      obtain rfl := Option.some.inj hafter
      simp only [System.addPeriodSignal]
      split
      · exact Grown.refl timers.system
      · exact Grown.insertUnnumbered ..
  | number uid =>
      obtain ⟨system, hsystem, rfl⟩ := Option.map_eq_some_iff.mp hstep
      exact Grown.number hsystem
  | discardEvent id =>
      have hdel : timers.within (.del id) = some after := hstep
      obtain ⟨system, hsystem, rfl⟩ := Option.map_eq_some_iff.mp hdel
      obtain rfl := Option.some.inj hsystem
      exact ⟨fun unit hunit => Or.inr ⟨unit, List.mem_of_mem_eraseP hunit, rfl, rfl⟩,
        fun _ huid => Or.inl huid⟩
  | alarm | fire | rearm => exact absurd hother Bool.noConfusion

theorem Covers.grown {poller after : WakingPoller} {next : Int × Timeval} {waking : List Nat}
    (hcovers : poller.Covers next) (hpipe : after.pipe = poller.pipe)
    (hwaking : after.waking = waking ++ poller.waking)
    (hgrown : Grown poller.timers.system after.timers.system waking) : after.Covers next := by
  intro unit hunit
  rcases hgrown.units unit hunit with hcall | ⟨old, hold, huid, hdeadline⟩
  · exact Or.inl (Or.inr (Or.inl hcall))
  · rw [← hdeadline]
    refine (hcovers old hold).imp_left ?_
    rintro (hsome | hcall | hwake)
    · exact Or.inl (hpipe ▸ hsome)
    · rw [huid] at hcall
      refine Or.inr ((hgrown.calls unit.uid hcall).imp_right fun hwake => ?_)
      rw [hwaking]
      exact List.mem_append_left _ hwake
    · rw [huid] at hwake
      refine Or.inr (Or.inr ?_)
      rw [hwaking]
      exact List.mem_append_right _ hwake

/-- A token is in the pipe once it has been written. -/
theorem wake_pipe (pipe : Nat) : (if pipe < pipeTokens then pipe + 1 else pipe) ≠ 0 := by
  unfold pipeTokens
  split <;> omega

/-- What the poller finds in the list covers every unit of it. -/
theorem covers_look {poller : WakingPoller} (hinv : PollTimers.ClockInv poller.timers) :
    poller.Covers poller.timers.system.queue.abstimeToNextEvent ∧
      Within poller.timers.system.queue.abstimeToNextEvent poller.timers.clock := by
  have hsorted := hinv.queue.sorted
  have htimely := fun unit hunit => hinv.timely unit (System.mem_live.mpr (Or.inl hunit))
  simp only [Covers, Within, abstimeToNextEvent]
  cases hlist : poller.timers.system.queue.mList with
  | nil => exact ⟨fun _ hunit => absurd hunit List.not_mem_nil, fun hzero => by simp at hzero⟩
  | cons first rest =>
      rw [hlist] at hsorted htimely
      have hfirst := htimely first List.mem_cons_self
      exact ⟨fun unit hunit => Or.inr ⟨rfl, PollTimers.earliest_of_sorted hsorted unit hunit⟩,
        fun _ => ⟨hfirst.normalised, hfirst.within_reach⟩⟩

theorem WakeInv.step {poller after : WakingPoller} (hinv : poller.WakeInv) {action : Step}
    (hstep : poller.step action = some after) : after.WakeInv := by
  cases action with
  | timers action =>
      obtain ⟨halarm, hmap⟩ := Option.ite_none_left_eq_some.mp hstep
      obtain ⟨timers, htimers, rfl⟩ := Option.map_eq_some_iff.mp hmap
      refine ⟨hinv.timers.step htimers, hinv.watched.of_covers rfl fun hbusy next hcovers => ?_⟩
      have hother : ofAlarm action = false :=
        Bool.eq_false_iff.mpr fun htrue => halarm ⟨htrue, hbusy⟩
      exact hcovers.grown rfl rfl (grown_of_step hother htimers)
  | wake uid =>
      obtain ⟨-, hafter⟩ := Option.ite_none_right_eq_some.mp hstep
      obtain rfl := Option.some.inj hafter
      refine ⟨hinv.timers, hinv.watched.of_covers rfl fun _ next _ => ?_⟩
      exact fun _ _ => Or.inl (Or.inl (wake_pipe poller.pipe))
  | look =>
      obtain ⟨-, hafter⟩ := Option.ite_none_right_eq_some.mp hstep
      obtain rfl := Option.some.inj hafter
      obtain ⟨hcovers, hwithin⟩ := covers_look hinv.timers
      exact ⟨hinv.timers, .looked rfl hcovers hwithin hinv.timers.clock⟩
  | read timeNow =>
      cases hinv.watched with
      | working hphase => simp [WakingPoller.step, hphase] at hstep
      | waiting hphase => simp [WakingPoller.step, hphase] at hstep
      | looked hphase hcovers hwithin hseen =>
          simp only [WakingPoller.step, hphase] at hstep
          obtain ⟨⟨hshown, hle⟩, hafter⟩ := Option.ite_none_right_eq_some.mp hstep
          obtain rfl := Option.some.inj hafter
          exact ⟨hinv.timers, .waiting rfl hcovers hwithin hseen hshown.1 hle⟩
  | back =>
      cases hinv.watched with
      | working hphase => simp [WakingPoller.step, hphase] at hstep
      | looked hphase => simp [WakingPoller.step, hphase] at hstep
      | waiting hphase =>
          simp only [WakingPoller.step, hphase] at hstep
          obtain rfl := Option.some.inj hstep
          exact ⟨hinv.timers, .working rfl⟩
  | handleRead =>
      obtain ⟨hphase, hafter⟩ := Option.ite_none_right_eq_some.mp hstep
      obtain rfl := Option.some.inj hafter
      exact ⟨hinv.timers, .working hphase⟩

theorem run_wakeInv {start : Timeval} (hstart : start.Normalised) {steps : List Step}
    {poller : WakingPoller} (hrun : run start steps = some poller) : poller.WakeInv := by
  refine runMachine_preserves WakeInv (fun _ _ _ hinv hstep => hinv.step hstep) ?_ hrun
  exact ⟨PollTimers.run_inv hstart (show PollTimers.run start [] = some _ from rfl), .working rfl⟩

/-- The time to a deadline within reach, in whole milliseconds. -/
theorem pollTime_of_within {next seen now : Timeval} (hnext : next.Normalised)
    (hseen : seen.Normalised) (hnow : now.Normalised) (hle : seen ≤ now)
    (hreach : next.micros ≤ seen.micros + maxPeriodDelay * 1000) :
    ∃ mseconds, pollTime next now = some mseconds ∧ 0 ≤ mseconds ∧
      mseconds * 1000 ≤ max 0 (next.micros - now.micros) := by
  let queue : TimedEventQ := ⟨[⟨next, .timedCallback, 0, 0, 0, 0, 0⟩], 0, 0, 0⟩
  have hqueue : (queue.timeToNextEvent now).2 = timeInterval next now := rfl
  obtain ⟨hdelay, hmicros⟩ := timeInterval_spec hnext hnow
  have hpassed := (le_iff_micros_le hseen hnow).mp hle
  have hshort : (timeInterval next now).micros ≤ maxPeriodDelay * 1000 := by
    rw [hmicros]
    simp only [maxPeriodDelay] at hreach ⊢
    omega
  rw [← hqueue] at hdelay hmicros hshort
  obtain ⟨mseconds, hvalue, hnonneg, hlow, -⟩ := PollTimers.timeOut_of_interval hdelay hshort
  exact ⟨mseconds, hvalue, hnonneg, hmicros ▸ hlow⟩

/-- No wake-up is lost. In every state in which the poller waits, and for every event in
the list: the call that added it is under way, or there is a token in the pipe, or the
time-out was computed without overflow and ends no later than the event is due. -/
theorem no_wakeup_is_lost {start : Timeval} (hstart : start.Normalised) {steps : List Step}
    {poller : WakingPoller} (hrun : run start steps = some poller) {timeOut : Option Int}
    {now : Timeval} (hphase : poller.phase = .waiting timeOut now) :
    ∀ unit ∈ poller.timers.system.queue.mList,
      unit.uid ∈ poller.timers.system.unnumbered ∨ unit.uid ∈ poller.waking ∨
        poller.pipe ≠ 0 ∨ ∃ mseconds, timeOut = some mseconds ∧ 0 ≤ mseconds ∧
          mseconds * 1000 ≤ max 0 (unit.tvAbsolute.micros - now.micros) := by
  intro unit hunit
  have hinv := run_wakeInv hstart hrun
  have hunitOk := hinv.timers.timely unit (System.mem_live.mpr (Or.inl hunit))
  cases hinv.watched with
  | working hold => rw [hold] at hphase; cases hphase
  | looked hold => rw [hold] at hphase; cases hphase
  | waiting hold hcovers hwithin hseen hnow hle =>
      rw [hold] at hphase
      obtain ⟨rfl, rfl⟩ := PollPhase.waiting.inj hphase
      rcases hcovers unit hunit with (hpipe | hcall | hwake) | ⟨hzero, hearlier⟩
      · exact Or.inr (Or.inr (Or.inl hpipe))
      · exact Or.inl hcall
      · exact Or.inr (Or.inl hwake)
      · obtain ⟨hnext, hreach⟩ := hwithin hzero
        obtain ⟨mseconds, hvalue, hnonneg, hend⟩ := pollTime_of_within hnext hseen hnow hle hreach
        have hdue := (le_iff_micros_le hnext hunitOk.normalised).mp hearlier
        exact Or.inr (Or.inr (Or.inr ⟨mseconds, hvalue, hnonneg, by omega⟩))

/-- The poller has found an event in ten seconds when another one in a millisecond comes.
The token of its call is still in the pipe when the poller begins to wait. -/
def laterEarlier : List Step :=
  [.timers (.addTimedCallback ⟨zero, .timedCallback, 0, 0, 0, 0, 0⟩ ⟨100, 0⟩ 10000 1),
    .timers (.number 0), .wake 0, .handleRead, .look,
    .timers (.addPeriodSignal ⟨zero, .timedCallback, 0, 0, 0, 0, 0⟩ ⟨100, 0⟩ 1 2),
    .read ⟨100, 0⟩, .timers (.number 1), .wake 1]

theorem no_wakeup_is_lost_laterEarlier :
    ∃ poller, run ⟨100, 0⟩ laterEarlier = some poller ∧
      poller.phase = .waiting (some 10000) ⟨100, 0⟩ ∧
      ∀ unit ∈ poller.timers.system.queue.mList,
        unit.uid ∈ poller.timers.system.unnumbered ∨ unit.uid ∈ poller.waking ∨
          poller.pipe ≠ 0 ∨ ∃ mseconds, some 10000 = some mseconds ∧ 0 ≤ mseconds ∧
            mseconds * 1000 ≤ max 0 (unit.tvAbsolute.micros - micros ⟨100, 0⟩) := by
  obtain ⟨poller, hrun⟩ := Option.isSome_iff_exists.mp
    (show (run ⟨100, 0⟩ laterEarlier).isSome = true by decide +kernel)
  have hwaits : (run ⟨100, 0⟩ laterEarlier).all
      (fun poller => poller.phase = .waiting (some 10000) ⟨100, 0⟩) = true := by decide +kernel
  simp only [hrun, Option.all_some, decide_eq_true_eq] at hwaits
  exact ⟨poller, hrun, hwaits, no_wakeup_is_lost (by decide) hrun hwaits⟩

end WakingPoller

end McuProxy.Net
