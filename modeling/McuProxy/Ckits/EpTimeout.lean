/-
# How long the event loop sleeps

`epAction` asks the wait queue for the time to the next event and waits that
many milliseconds in `epoll_wait`. `epCallLater` stores its delay as it is given,
any number of seconds that fits in an `int`, and a thousand times that number
does not fit. The product wraps, and a negative time-out is one that never ends:
the loop then sleeps through the event it was asked to wait for.

A time-out that comes out non-negative is harmless. Wrapping only ever takes
whole multiples of `2 ^ 32` away, so it is at most the time that is left. Which
of the two happens depends on a single bit of the number of milliseconds.
-/

import McuProxy.Ckits.TimeListWord

namespace McuProxy.Ckits.TimeList32

open McuProxy.Math McuProxy.Time McuProxy.Time.Timeval

/-- `time_out` of `epAction`. -/
def epTimeOut (lst : TimeListType) (timeNow : Timeval) : Int :=
  let tvRet := (timeToNextAlarmEvent lst timeNow).1
  signed32 (signed32 (tvRet.tvSec * 1000) + tvRet.tvUsec.tdiv 1000)

/-- The microseconds to the first pending event: what is stored for it, less the
time that has passed since the queue was last synchronised. -/
def remaining (lst : TimeListType) (timeNow : Timeval) : Int :=
  max 0 ((firstRemain lst).micros - max 0 (timeNow.micros - lst.tvLastSync.micros))

/-- The time-out is a time, and not a longer one than the first event has left. -/
def NeverOversleeps (lst : TimeListType) (timeNow : Timeval) : Prop :=
  0 ≤ epTimeOut lst timeNow ∧ epTimeOut lst timeNow * 1000 ≤ remaining lst timeNow

instance (lst : TimeListType) (timeNow : Timeval) : Decidable (NeverOversleeps lst timeNow) :=
  inferInstanceAs (Decidable (_ ∧ _))

section

variable {lst : TimeListType} {timeNow : Timeval}

theorem run_stored {start : Timeval} (hstart : Fits start) {calls : List Call}
    (hcalls : Promised step Admissible (initTimeList start) calls)
    (hrun : runMachine step (initTimeList start) calls = some lst) : Stored lst := by
  exact runMachine_keeps Stored (fun _ _ _ hstored hcall hstep => hstored.step hcall hstep)
    (initTimeList_stored hstart) hcalls hrun

/-- What `epAction` is told is the time to the first event. -/
theorem Stored.timeToNext (hstored : Stored lst) (hnow : Fits timeNow) (hpending : lst.nodes ≠ []) :
    (timeToNextAlarmEvent lst timeNow).1.Delay ∧
      (timeToNextAlarmEvent lst timeNow).1.micros = remaining lst timeNow := by
  obtain ⟨first, rest, hnodes⟩ := List.exists_cons_of_ne_nil hpending
  have helapsed := hstored.elapsed_fits hnow
  have hfirst : Fits first.tvRemain := by
    apply hstored.nodes.fits
    rw [hnodes]
    exact List.mem_cons_self
  have hcompare : timeOverthan (timeInterval timeNow lst.tvLastSync) first.tvRemain = true ↔
      first.tvRemain.micros ≤ (timeInterval timeNow lst.tvLastSync).micros := by
    rw [timeOverthan_iff, le_iff_micros_le hfirst.1.2 helapsed.1.2]
  rw [remaining, ← hstored.elapsed_micros hnow, timeToNextAlarmEvent, TimeList32.synchronize]
  simp only [firstRemain, hnodes, synchronizeNodes]
  by_cases hdue : first.tvRemain.micros ≤ (timeInterval timeNow lst.tvLastSync).micros
  · rw [if_pos (hcompare.mpr hdue), max_eq_left (sub_nonpos.mpr hdue)]
    exact ⟨zero_delay, rfl⟩
  · rw [if_neg (hcompare.not.mpr hdue)]
    simp only
    rw [timeInterval_eq hfirst helapsed]
    exact timeInterval_spec hfirst.1.2 helapsed.1.2

/-- The time-out is the number of milliseconds, reduced to 32 bits. -/
theorem epTimeOut_eq (hstored : Stored lst) (hnow : Fits timeNow) (hpending : lst.nodes ≠ []) :
    epTimeOut lst timeNow = (remaining lst timeNow / 1000).bmod 4294967296 := by
  obtain ⟨⟨hsec, husec, hmillion⟩, hmicros⟩ := hstored.timeToNext hnow hpending
  simp only [epTimeOut, signed32]
  rw [← hmicros]
  generalize (timeToNextAlarmEvent lst timeNow).1 = tvRet at hsec husec hmillion
  rw [Int.tdiv_eq_ediv_of_nonneg husec, Int.bmod_add_bmod]
  congr 1
  simp only [micros]
  omega

/-- Reduced to 32 bits, a number of milliseconds is negative or no larger than it
was. -/
theorem bmod_nonneg_iff {value : Int} (hvalue : 0 ≤ value) :
    0 ≤ value.bmod 4294967296 ∧ value.bmod 4294967296 ≤ value ↔
      value % 4294967296 < 2147483648 := by
  rw [Int.bmod_def]
  split <;> omega

/-- `epAction` does not oversleep exactly when bit 31 of the number of
milliseconds to the first event is clear. -/
theorem neverOversleeps_iff {start : Timeval} (hstart : Fits start) {calls : List Call}
    (hcalls : Promised step Admissible (initTimeList start) calls)
    (hrun : runMachine step (initTimeList start) calls = some lst) (hpending : lst.nodes ≠ [])
    (hnow : Fits timeNow) :
    NeverOversleeps lst timeNow ↔ remaining lst timeNow / 1000 % 4294967296 < 2147483648 := by
  have hstored := run_stored hstart hcalls hrun
  have hnonneg : 0 ≤ remaining lst timeNow := le_max_left _ _
  rw [NeverOversleeps, epTimeOut_eq hstored hnow hpending,
    ← bmod_nonneg_iff (Int.ediv_nonneg hnonneg (by decide))]
  apply and_congr_right
  intro _
  omega

end

/-- Twelve seconds in, a call of ten minutes comes first. -/
def ordinaryCalls : List Call :=
  [.add ⟨0, 0⟩ ⟨⟨3600, 0⟩, 7, 0⟩, .add ⟨0, 5⟩ ⟨⟨600, 0⟩, 7, 0⟩, .next ⟨1, 0⟩, .alarm ⟨12, 0⟩]

theorem neverOversleeps_iff_ordinary :
    ∃ lst, runMachine step (initTimeList ⟨0, 0⟩) ordinaryCalls = some lst ∧ lst.nodes ≠ [] ∧
      NeverOversleeps lst ⟨13, 0⟩ := by
  obtain ⟨lst, hrun⟩ := Option.isSome_iff_exists.mp
    (show (runMachine step (initTimeList ⟨0, 0⟩) ordinaryCalls).isSome = true by decide +kernel)
  have hall : (runMachine step (initTimeList ⟨0, 0⟩) ordinaryCalls).all (fun lst =>
      lst.nodes ≠ [] ∧ remaining lst ⟨13, 0⟩ / 1000 % 4294967296 < 2147483648) = true := by
    decide +kernel
  rw [hrun, Option.all_some, decide_eq_true_eq] at hall
  exact ⟨lst, hrun, hall.1, (neverOversleeps_iff (by decide) (by decide +kernel) hrun hall.1
    (by decide)).mpr hall.2⟩

/-- A single call in 2147484 seconds, less than 25 days, gives a negative
time-out at once. -/
theorem distant_call_oversleeps :
    Promised step Admissible (initTimeList ⟨0, 0⟩) [.add ⟨0, 0⟩ ⟨⟨2147484, 0⟩, 7, 0⟩] ∧
      (runMachine step (initTimeList ⟨0, 0⟩) [.add ⟨0, 0⟩ ⟨⟨2147484, 0⟩, 7, 0⟩]).any
        (fun lst => lst.nodes ≠ [] ∧ ¬ NeverOversleeps lst ⟨0, 0⟩ ∧
          epTimeOut lst ⟨0, 0⟩ = -2147483296) = true := by
  decide +kernel

end McuProxy.Ckits.TimeList32
