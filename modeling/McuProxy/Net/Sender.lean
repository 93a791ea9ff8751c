/-
# The paced sender

`SocketSender` keeps two lists of buffers. Threads that deliver put buffers at the
end of `mBuffers` under its lock; the sender's own thread, woken every ten
milliseconds, moves them to `mPending` under the same lock and then sends from
`mPending` without it. Each locked section and each turn of the sending loop is
one step, and the steps of all threads interleave in any order.

What is in a buffer does not matter here, and neither does the reason for which
`SocketHolder::fetch` finds a transport or not: its status is an input of each
turn. A run carries the record of what was delivered and what was sent.
-/

import McuProxy.Math.Machine
import McuProxy.Net.MetaBuffer

namespace McuProxy.Net

open McuProxy.Math

universe u

variable {β : Type u}

/-- `MAX_SENDING_PACKETS`. -/
def maxSendingPackets : Nat := 6

/-- The loop variables of an activation of `threadLoop`. -/
structure Tick where
  i : Nat
  sendnum : Nat
  deriving DecidableEq

/-- The lists of the sender. `tick` is there while the sending loop runs; without
it the thread waits for `mTick`. -/
structure SocketSender (β : Type u) where
  mBuffers : List β
  mPending : List β
  tick : Option Tick
  deriving DecidableEq

namespace SocketSender

def init : SocketSender β := ⟨[], [], none⟩

/-- The locked section of `deliver`. -/
def pushBack (sender : SocketSender β) (buffer : β) : SocketSender β :=
  { sender with mBuffers := sender.mBuffers ++ [buffer] }

/-- `SocketSender::deliver`, for a buffer that may be `NULL`; `tagged` is whether
its `data()` is there and its "fd" is found. -/
def deliver (sender : SocketSender β) (buffer : Option β) (tagged : Bool) :
    Status × SocketSender β :=
  match buffer with
  | none => (.badValue, sender)
  | some buffer => if tagged then (.noError, sender.pushBack buffer) else (.badValue, sender)

/-- The loop that moves the buffers one by one. -/
def moveBuffers (mPending : List β) : List β → List β
  | [] => mPending
  | buffer :: mBuffers => moveBuffers (mPending ++ [buffer]) mBuffers

/-- `threadLoop` from its return out of `pthread_cond_wait` to its sending loop. -/
def wake (sender : SocketSender β) : Option (SocketSender β) :=
  match sender.tick with
  | some _ => none
  | none =>
      let mPending :=
        if sender.mPending.isEmpty then sender.mBuffers
        else moveBuffers sender.mPending sender.mBuffers
      let sendnum :=
        if mPending.length > maxSendingPackets then maxSendingPackets else mPending.length
      some ⟨[], mPending, some ⟨0, sendnum⟩⟩

/-- The buffer that a turn of the sending loop takes. -/
def taken (sender : SocketSender β) : Option β :=
  match sender.tick, sender.mPending with
  | some tick, buffer :: _ => if tick.i ≥ tick.sendnum then none else some buffer
  | _, _ => none

/-- A turn of the sending loop: its end, or the buffer that it takes with the
status of the fetch. -/
def turn (sender : SocketSender β) (fetch : β → Status) :
    Option (SocketSender β × Option (β × Status)) :=
  match sender.tick, sender.mPending with
  | none, _ => none
  | some _, [] => some ({ sender with tick := none }, none)
  | some tick, buffer :: mPending =>
      if tick.i ≥ tick.sendnum then some ({ sender with tick := none }, none)
      else
        let i := if fetch buffer = .noError then tick.i + 1 else tick.i
        some (⟨sender.mBuffers, mPending, some { tick with i := i }⟩,
          some (buffer, fetch buffer))

/-- What a tick that has ended sent, and what it left in `mPending`. -/
structure TickEnd (β : Type u) where
  sent : List β
  left : List β
  deriving DecidableEq

/-- The sender with the record of a run: the buffers delivered, those taken from
`mPending` with the status of their fetch, those handed to `doSend`, and the
latter tick by tick. -/
structure Paced (β : Type u) where
  sender : SocketSender β
  delivered : List β
  popped : List (β × Status)
  sent : List β
  ended : List (TickEnd β)
  current : List β
  deriving DecidableEq

inductive Step (β : Type u)
  | deliver (buffer : Option β) (tagged : Bool)
  | wake
  | turn (err : Status)

/-- The record after a turn. -/
def Paced.turned (paced : Paced β) (sender : SocketSender β) : Option (β × Status) → Paced β
  | none =>
      { paced with
        sender := sender
        ended := paced.ended ++ [⟨paced.current, sender.mPending⟩]
        current := [] }
  | some (buffer, err) =>
      let handed := if err = .noError then [buffer] else []
      { paced with
        sender := sender
        popped := paced.popped ++ [(buffer, err)]
        sent := paced.sent ++ handed
        current := paced.current ++ handed }

def Paced.init : Paced β := ⟨SocketSender.init, [], [], [], [], []⟩

/-- A step of some thread; undefined when the sender's thread is not there. -/
def Paced.step (paced : Paced β) : Step β → Option (Paced β)
  | .deliver buffer tagged =>
      let (err, sender) := paced.sender.deliver buffer tagged
      some { paced with
        sender := sender
        delivered := if err = .noError then paced.delivered ++ buffer.toList else paced.delivered }
  | .wake => paced.sender.wake.map fun sender => { paced with sender := sender }
  | .turn err =>
      (paced.sender.turn fun _ => err).map fun (sender, taken) => paced.turned sender taken

theorem moveBuffers_eq (mPending mBuffers : List β) :
    moveBuffers mPending mBuffers = mPending ++ mBuffers := by
  induction mBuffers generalizing mPending with
  | nil => rw [moveBuffers, List.append_nil]
  | cons buffer mBuffers ih => rw [moveBuffers, ih, List.append_assoc, List.singleton_append]

theorem limit_eq_min (size : Nat) :
    (if size > maxSendingPackets then maxSendingPackets else size) =
      min size maxSendingPackets := by
  split <;> omega

/-- Both ways of moving the buffers put them behind those that are pending. -/
theorem wake_eq {sender next : SocketSender β} (hwake : sender.wake = some next) :
    sender.tick = none ∧ next.mBuffers = [] ∧ next.mPending = sender.mPending ++ sender.mBuffers ∧
      next.tick = some ⟨0, min next.mPending.length maxSendingPackets⟩ := by
  unfold wake at hwake
  split at hwake
  · cases hwake
  · rename_i htick
    obtain rfl := Option.some.inj hwake
    refine ⟨htick, rfl, ?_, ?_⟩
    · cases hpending : sender.mPending with
      | nil => rfl
      | cons buffer mPending => exact moveBuffers_eq _ _
    · refine congrArg (fun sendnum => some (Tick.mk 0 sendnum)) ?_
      exact limit_eq_min _

/-- The cases of a turn. -/
theorem turn_cases {sender next : SocketSender β} {fetch : β → Status} {taken : Option (β × Status)}
    (hturn : sender.turn fetch = some (next, taken)) :
    (∃ tick, sender.tick = some tick ∧ (sender.mPending = [] ∨ tick.sendnum ≤ tick.i) ∧
        next = { sender with tick := none } ∧ taken = none) ∨
      ∃ tick buffer mPending, sender.tick = some tick ∧ sender.mPending = buffer :: mPending ∧
        tick.i < tick.sendnum ∧
        next = ⟨sender.mBuffers, mPending, some
          ⟨if fetch buffer = .noError then tick.i + 1 else tick.i, tick.sendnum⟩⟩ ∧
        taken = some (buffer, fetch buffer) := by
  unfold turn at hturn
  split at hturn
  · cases hturn
  · rename_i tick htick hpending
    obtain ⟨rfl, rfl⟩ := Prod.mk.inj (Option.some.inj hturn)
    exact Or.inl ⟨tick, htick, Or.inl hpending, rfl, rfl⟩
  · rename_i tick buffer mPending htick hpending
    split at hturn
    · rename_i hdone
      obtain ⟨rfl, rfl⟩ := Prod.mk.inj (Option.some.inj hturn)
      exact Or.inl ⟨tick, htick, Or.inr hdone, rfl, rfl⟩
    · rename_i hmore
      obtain ⟨rfl, rfl⟩ := Prod.mk.inj (Option.some.inj hturn)
      exact Or.inr ⟨tick, buffer, mPending, htick, hpending, by omega, rfl, rfl⟩

/-- A turn that takes no buffer ends the loop and leaves the lists as they are; one that
takes a buffer takes the first that is pending. -/
theorem turn_taken {sender next : SocketSender β} {fetch : β → Status} {took : Option (β × Status)}
    (hturn : sender.turn fetch = some (next, took)) :
    next.mBuffers = sender.mBuffers ∧
      ((sender.taken = none ∧ next.mPending = sender.mPending) ∨
        ∃ buffer, sender.taken = some buffer ∧ sender.mPending = buffer :: next.mPending) := by
  rcases turn_cases hturn with ⟨tick, htick, hend, rfl, rfl⟩ |
    ⟨tick, buffer, mPending, htick, hpending, hmore, rfl, rfl⟩
  · refine ⟨rfl, Or.inl ⟨?_, rfl⟩⟩
    unfold taken
    rcases hend with hempty | hdone
    · rw [htick, hempty]
    · rw [htick]
      cases sender.mPending with
      | nil => rfl
      | cons buffer mPending => exact if_pos hdone
  · refine ⟨rfl, Or.inr ⟨buffer, ?_, hpending⟩⟩
    unfold taken
    rw [htick, hpending]
    exact if_neg (by omega)

theorem mem_of_taken {sender : SocketSender β} {buffer : β} (htaken : sender.taken = some buffer) :
    buffer ∈ sender.mPending := by
  unfold taken at htaken
  split at htaken
  · rename_i first mPending htick hpending
    obtain ⟨-, hbuffer⟩ := Option.ite_none_left_eq_some.mp htaken
    obtain rfl := Option.some.inj hbuffer
    rw [hpending]
    exact List.mem_cons_self
  · cases htaken

/-- The limit of the running tick: what it sent is counted by `i`, and a `sendnum`
below the maximum leaves room for everything that is pending. -/
def Limited (sender : SocketSender β) (current : List β) : Prop :=
  match sender.tick with
  | none => current = []
  | some tick =>
      tick.i = current.length ∧ tick.i ≤ tick.sendnum ∧ tick.sendnum ≤ maxSendingPackets ∧
        (tick.sendnum = maxSendingPackets ∨ tick.i + sender.mPending.length ≤ tick.sendnum)

/-- The sender as a paced queue: nothing is lost, doubled or reordered, exactly the
entries that were found are sent, and each tick sends as many as it may. -/
structure Paced.Fifo (paced : Paced β) : Prop where
  order : paced.delivered =
    paced.popped.map Prod.fst ++ paced.sender.mPending ++ paced.sender.mBuffers
  sent : paced.sent = (paced.popped.filter fun entry => entry.2 = .noError).map Prod.fst
  ticks : paced.sent = paced.ended.flatMap TickEnd.sent ++ paced.current
  limit : paced.current.length ≤ maxSendingPackets
  full : ∀ tick ∈ paced.ended, tick.sent.length ≤ maxSendingPackets ∧
    (tick.left = [] ∨ tick.sent.length = maxSendingPackets)

theorem Paced.Fifo.deliver {paced : Paced β} (hfifo : paced.Fifo)
    (hlimited : Limited paced.sender paced.current) (buffer : Option β) (tagged : Bool)
    {next : Paced β} (hstep : paced.step (.deliver buffer tagged) = some next) :
    next.Fifo ∧ Limited next.sender next.current := by
  obtain rfl := Option.some.inj hstep
  cases buffer with
  | none => exact ⟨⟨hfifo.order, hfifo.sent, hfifo.ticks, hfifo.limit, hfifo.full⟩, hlimited⟩
  | some buffer =>
      cases tagged with
      | false => exact ⟨⟨hfifo.order, hfifo.sent, hfifo.ticks, hfifo.limit, hfifo.full⟩, hlimited⟩
      | true =>
          refine ⟨⟨?_, hfifo.sent, hfifo.ticks, hfifo.limit, hfifo.full⟩, hlimited⟩
          simp only [pushBack, if_true, Option.toList_some, hfifo.order,
            List.append_assoc]

theorem Paced.Fifo.wake {paced : Paced β} (hfifo : paced.Fifo)
    (hlimited : Limited paced.sender paced.current) {next : Paced β}
    (hstep : paced.step .wake = some next) : next.Fifo ∧ Limited next.sender next.current := by
  obtain ⟨sender, hwake, rfl⟩ := Option.map_eq_some_iff.mp hstep
  obtain ⟨htick, hbuffers, hpending, hnext⟩ := wake_eq hwake
  rw [Limited, htick] at hlimited
  refine ⟨⟨?_, hfifo.sent, hfifo.ticks, hfifo.limit, hfifo.full⟩, ?_⟩
  · rw [hfifo.order, hbuffers, hpending, List.append_nil, List.append_assoc]
  · rw [Limited, hnext]
    refine ⟨?_, Nat.zero_le _, Nat.min_le_right _ _, ?_⟩
    · rw [hlimited]
      rfl
    · dsimp only
      omega

/-- The end of a tick: either nothing is pending, or the maximum was sent. -/
theorem Paced.Fifo.finish {paced : Paced β} (hfifo : paced.Fifo)
    (hlimited : Limited paced.sender paced.current) {tick : Tick}
    (htick : paced.sender.tick = some tick)
    (hdone : paced.sender.mPending = [] ∨ tick.sendnum ≤ tick.i) :
    (paced.turned { paced.sender with tick := none } none).Fifo := by
  rw [Limited, htick] at hlimited
  obtain ⟨hcount, hle, hmax, hroom⟩ := hlimited
  refine ⟨hfifo.order, hfifo.sent, ?_, Nat.zero_le _, ?_⟩
  · simp only [turned, List.flatMap_append, List.flatMap_singleton, List.append_nil]
    exact hfifo.ticks
  · intro ended hended
    rcases List.mem_append.mp hended with hold | hnew
    · exact hfifo.full ended hold
    · obtain rfl := List.mem_singleton.mp hnew
      refine ⟨hfifo.limit, ?_⟩
      rcases hdone with hempty | hdone
      · exact Or.inl hempty
      · rcases hroom with hfull | hroom
        · exact Or.inr (by dsimp only; omega)
        · exact Or.inl (List.length_eq_zero_iff.mp (by dsimp only; omega))

/-- A turn that takes a buffer. -/
theorem Paced.Fifo.take {paced : Paced β} (hfifo : paced.Fifo)
    (hlimited : Limited paced.sender paced.current) {tick : Tick} {buffer : β} {mPending : List β}
    (htick : paced.sender.tick = some tick) (hpending : paced.sender.mPending = buffer :: mPending)
    (hmore : tick.i < tick.sendnum) (err : Status) {sender : SocketSender β}
    (hsender : sender = ⟨paced.sender.mBuffers, mPending,
      some ⟨if err = .noError then tick.i + 1 else tick.i, tick.sendnum⟩⟩) :
    (paced.turned sender (some (buffer, err))).Fifo ∧
      Limited sender (paced.turned sender (some (buffer, err))).current := by
  rw [Limited, htick] at hlimited
  obtain ⟨hcount, hle, hmax, hroom⟩ := hlimited
  rw [hpending, List.length_cons] at hroom
  have horder := hfifo.order
  have hsent := hfifo.sent
  have hticks := hfifo.ticks
  subst hsender
  by_cases herr : err = .noError
  · refine ⟨⟨?_, ?_, ?_, ?_, hfifo.full⟩, ?_⟩
    · simp [turned, horder, hpending]
    · simp [turned, hsent, herr]
    · simp [turned, hticks, herr]
    · simp only [turned, herr, if_true, List.length_append, List.length_singleton]
      omega
    · simp only [Limited, turned, herr, if_true, List.length_append, List.length_singleton]
      omega
  · refine ⟨⟨?_, ?_, ?_, ?_, hfifo.full⟩, ?_⟩
    · simp [turned, horder, hpending]
    · simp [turned, hsent, herr]
    · simp [turned, hticks, herr]
    · simp only [turned, herr, if_false, List.append_nil]
      omega
    · simp only [Limited, turned, herr, if_false, List.append_nil]
      omega

/-- One step of any thread. -/
theorem Paced.step_fifo {paced next : Paced β} (hfifo : paced.Fifo)
    (hlimited : Limited paced.sender paced.current) {step : Step β}
    (hstep : paced.step step = some next) : next.Fifo ∧ Limited next.sender next.current := by
  cases step with
  | deliver buffer tagged => exact hfifo.deliver hlimited buffer tagged hstep
  | wake => exact hfifo.wake hlimited hstep
  | turn err =>
      obtain ⟨⟨sender, taken⟩, hturn, rfl⟩ := Option.map_eq_some_iff.mp hstep
      rcases turn_cases hturn with ⟨tick, htick, hdone, rfl, rfl⟩ |
        ⟨tick, buffer, mPending, htick, hpending, hmore, hnext, rfl⟩
      · exact ⟨hfifo.finish hlimited htick hdone, rfl⟩
      · exact hfifo.take hlimited htick hpending hmore err hnext

/-- The sender is a paced queue, whatever is delivered by whichever threads,
however the steps interleave, and whatever the fetches find. -/
theorem run_fifo (steps : List (Step β)) {final : Paced β}
    (hrun : runMachine Paced.step Paced.init steps = some final) : final.Fifo := by
  have hinit : (Paced.init : Paced β).Fifo ∧ Limited (SocketSender.init : SocketSender β) [] :=
    ⟨⟨rfl, rfl, rfl, Nat.zero_le _, fun tick htick => absurd htick List.not_mem_nil⟩, rfl⟩
  refine (runMachine_preserves
    (fun paced : Paced β => paced.Fifo ∧ Limited paced.sender paced.current) ?_ hinit hrun).1
  rintro paced step next ⟨hfifo, hlimited⟩ hstep
  exact Paced.step_fifo hfifo hlimited hstep

/-- Eight buffers, the second of them without its transport: the first tick sends
six, passes over the second, and leaves the eighth, which goes before a ninth. -/
theorem run_fifo_passing_over : ∃ final : Paced Nat,
    runMachine Paced.step Paced.init
      ([1, 2, 3, 4, 5, 6, 7, 8].map (fun buffer => .deliver (some buffer) true) ++
        [.wake, .turn .noError, .turn .deadObject] ++ List.replicate 5 (.turn .noError) ++
        [.deliver (some 9) true, .turn .noError, .wake, .turn .noError, .turn .noError,
          .turn .noError]) = some final ∧ final.Fifo ∧
      final.ended = [⟨[1, 3, 4, 5, 6, 7], [8]⟩, ⟨[8, 9], []⟩] := by
  have hended : ∀ (steps : List (Step Nat)) ticks,
      (runMachine Paced.step Paced.init steps).map Paced.ended = some ticks →
        ∃ final, runMachine Paced.step Paced.init steps = some final ∧ final.Fifo ∧
          final.ended = ticks := by
    intro steps ticks hrun
    obtain ⟨final, hfinal, rfl⟩ := Option.map_eq_some_iff.mp hrun
    exact ⟨final, hfinal, run_fifo steps hfinal, rfl⟩
  exact hended _ _ rfl

end SocketSender

end McuProxy.Net
