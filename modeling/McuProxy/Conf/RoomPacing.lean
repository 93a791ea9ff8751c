/-
# The pace of the waiting room

A turn of `WaitingRoom::threadLoop` reads the clock, adds the length of an event to
the microseconds, moves one frame from every node to the next, reads the clock
again, and waits in `select` for what is left of the event. The sum is not
normalised before the second reading is taken away from it, and the result is
clamped by its seconds alone.

As long as both readings fall in the same second the two omissions cancel. When the
clock passes a second in between, the difference has `-1` seconds and a million
microseconds too many, and it is taken for negative although time is left: the room
does not wait, and its next turn comes early.
-/

import McuProxy.Time.Timeval

namespace McuProxy.Conf.WaitingRoom

open McuProxy.Time McuProxy.Time.Timeval

/-- The readings of `gettimeofday` at the two ends of a turn. -/
structure Turn where
  start : Timeval
  finish : Timeval
  deriving DecidableEq, Repr

/-- `waitTime` at the end of a turn; `eventtimeUs` is `EVENTTIME_US`. -/
def waitTime (eventtimeUs : Int) (turn : Turn) : Timeval :=
  let waitTime : Timeval := ⟨turn.start.tvSec, turn.start.tvUsec + eventtimeUs⟩
  let waitTime : Timeval :=
    ⟨waitTime.tvSec - turn.finish.tvSec, waitTime.tvUsec - turn.finish.tvUsec⟩
  let waitTime : Timeval :=
    if waitTime.tvUsec < 0 then ⟨waitTime.tvSec - 1, waitTime.tvUsec + 1000000⟩ else waitTime
  if waitTime.tvSec < 0 then ⟨0, 0⟩ else waitTime

/-- What is left of the event that began with the turn. -/
def timeLeft (eventtimeUs : Int) (turn : Turn) : Int :=
  max 0 (turn.start.micros + eventtimeUs - turn.finish.micros)

/-- `select` is given a normalised time, and the right one. -/
def PacedRight (eventtimeUs : Int) (turn : Turn) : Prop :=
  (waitTime eventtimeUs turn).Delay ∧
    (waitTime eventtimeUs turn).micros = timeLeft eventtimeUs turn

instance (eventtimeUs : Int) (turn : Turn) : Decidable (PacedRight eventtimeUs turn) :=
  inferInstanceAs (Decidable (_ ∧ _))

/-- The clock gives normalised readings and does not go back during the turn. -/
structure Turn.Timed (turn : Turn) : Prop where
  start : turn.start.Normalised
  finish : turn.finish.Normalised
  forward : turn.start ≤ turn.finish

/-- An event is shorter than a second. -/
structure Subsecond (eventtimeUs : Int) : Prop where
  pos : 0 < eventtimeUs
  lt : eventtimeUs < 1000000

section

variable {eventtimeUs : Int} {turn : Turn}

/-- In one second the wait is what is left of the event. -/
theorem waitTime_same_second (hevent : Subsecond eventtimeUs) (hturn : turn.Timed)
    (hsecond : turn.start.tvSec = turn.finish.tvSec) : PacedRight eventtimeUs turn := by
  obtain ⟨hpos, hlt⟩ := hevent
  obtain ⟨⟨_, _⟩, ⟨_, _⟩, hforward⟩ := hturn
  rw [le_iff] at hforward
  simp only [PacedRight, waitTime, timeLeft, Delay, Normalised, micros]
  split_ifs <;> dsimp only at * <;> omega

/-- When the clock has passed a second there is no wait. -/
theorem waitTime_later_second (hsecond : turn.start.tvSec < turn.finish.tvSec) :
    waitTime eventtimeUs turn = ⟨0, 0⟩ := by
  simp only [waitTime]
  split_ifs <;> dsimp only at * <;> first | rfl | omega

theorem Turn.Timed.seconds (hturn : turn.Timed) : turn.start.tvSec ≤ turn.finish.tvSec := by
  have hforward := le_iff.mp hturn.forward
  omega

/-- A turn that begins and ends in the same second, or leaves nothing of the event. -/
theorem pacedRight_of_covered (hevent : Subsecond eventtimeUs) (hturn : turn.Timed)
    (hcovered : turn.start.tvSec = turn.finish.tvSec ∨
      turn.start.micros + eventtimeUs ≤ turn.finish.micros) : PacedRight eventtimeUs turn := by
  have hforward := hturn.seconds
  by_cases hsecond : turn.start.tvSec = turn.finish.tvSec
  · exact waitTime_same_second hevent hturn hsecond
  · have hspent := hcovered.resolve_left hsecond
    rw [PacedRight, waitTime_later_second (by omega), timeLeft, max_eq_left (by omega)]
    exact ⟨by decide, rfl⟩

/-- The wait is right exactly when the turn begins and ends in the same second, or
leaves nothing of the event. -/
theorem pacedRight_iff (hevent : Subsecond eventtimeUs) (hturn : turn.Timed) :
    PacedRight eventtimeUs turn ↔
      turn.start.tvSec = turn.finish.tvSec ∨
        turn.start.micros + eventtimeUs ≤ turn.finish.micros := by
  refine ⟨fun hright => ?_, pacedRight_of_covered hevent hturn⟩
  have hforward := hturn.seconds
  by_contra hneither
  obtain ⟨hsecond, hleft⟩ := not_or.mp hneither
  have hwait := hright.2
  rw [waitTime_later_second (by omega), timeLeft, max_eq_right (by omega)] at hwait
  simp only [micros] at hwait hleft
  omega

end

/-- A turn of a millisecond that ends with its second. -/
theorem pacedRight_iff_millisecond :
    PacedRight 10000 ⟨⟨1400000000, 998000⟩, ⟨1400000000, 999000⟩⟩ ↔
      (1400000000 : Int) = 1400000000 ∨
        micros ⟨1400000000, 998000⟩ + 10000 ≤ micros ⟨1400000000, 999000⟩ :=
  pacedRight_iff ⟨by decide, by decide⟩ ⟨by decide, by decide, by rw [le_iff]; decide⟩

/-- A turn that begins a millisecond before the end of a second and ends with it:
nine of ten milliseconds are left, and the room does not wait. -/
theorem second_boundary_not_waited :
    Normalised ⟨1400000000, 999000⟩ ∧ Normalised ⟨1400000001, 0⟩ ∧
      waitTime 10000 ⟨⟨1400000000, 999000⟩, ⟨1400000001, 0⟩⟩ = ⟨0, 0⟩ ∧
      timeLeft 10000 ⟨⟨1400000000, 999000⟩, ⟨1400000001, 0⟩⟩ = 9000 ∧
      ¬ PacedRight 10000 ⟨⟨1400000000, 999000⟩, ⟨1400000001, 0⟩⟩ := by
  decide

/-- `select` does not come back before its time. -/
def Follows (eventtimeUs : Int) (turn next : Turn) : Prop :=
  turn.finish.micros + (waitTime eventtimeUs turn).micros ≤ next.start.micros

/-- Turns that each begin and end in the same second, or last as long as an event,
begin at least an event apart. -/
theorem starts_apart {eventtimeUs : Int} (hevent : Subsecond eventtimeUs) {turns : List Turn}
    (hturns : ∀ turn ∈ turns, turn.Timed)
    (hseconds : ∀ turn ∈ turns, turn.start.tvSec = turn.finish.tvSec ∨
      turn.start.micros + eventtimeUs ≤ turn.finish.micros)
    (hrun : turns.IsChain (Follows eventtimeUs)) :
    turns.IsChain fun turn next => turn.start.micros + eventtimeUs ≤ next.start.micros := by
  refine List.IsChain.imp_of_mem_imp ?_ hrun
  intro turn next hturn _ hfollows
  have hright := pacedRight_of_covered hevent (hturns turn hturn) (hseconds turn hturn)
  rw [Follows, hright.2, timeLeft] at hfollows
  omega

end McuProxy.Conf.WaitingRoom
