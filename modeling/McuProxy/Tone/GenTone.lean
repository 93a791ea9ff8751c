/-
# The tone oscillators

`GenTone` of `gentone.c` makes ten milliseconds of sound from two recursive
oscillators, `y[n] = a * y[n-1] - y[n-2]` in 16-bit fixed point. The coefficients
come from `get_tone_ceff`, which computes a sine and a cosine in floating point and
is not modelled; the oscillators themselves are integers throughout.

What the caller relies on is small. A call gives as many samples as it is asked for,
and once the instance is told to start again, nothing of what it held before can be
heard.
-/

import Mathlib.Data.Int.Bitwise

namespace McuProxy.Tone

/-- `dtmf_tone_inst_t`, without the field that nothing reads. -/
structure DtmfToneInst where
  reinit : Int16
  oldOutputLow : Int16 × Int16
  oldOutputHigh : Int16 × Int16
  deriving DecidableEq, Repr

/-- `dtfm_dBm0`, in Q14. -/
def dtfmDBm0 : List Int :=
  [16141, 14386, 12821, 11427, 10184, 9077, 8090, 7210, 6426, 5727, 5104, 4549, 4054, 3614, 3221,
    2870, 2558, 2280, 2032, 1811, 1614, 1439, 1282, 1143, 1018, 908, 809, 721, 643, 573, 510, 455,
    405, 361, 322, 287, 256]

/-- `DTMF_DEC_PARAMETER_ERROR`. -/
def dtmfDecParameterError : Int := -6001

/-- `DTMF_AMP_LOW`. -/
def dtmfAmpLow : Int := 23171

/-- The recursion of one oscillator, on its last two outputs. -/
def oscillate (a : Int16) (old : Int16 × Int16) : Int16 × Int16 :=
  (old.2, Int16.ofInt (((a.toInt * old.2.toInt + 8192) >>> 14) - old.1.toInt))

/-- A sample from the last outputs of both oscillators, at a volume. -/
def mixTones (low high : Int16) (volume : Nat) : Int16 :=
  let tempVal := dtmfAmpLow * low.toInt + high.toInt * 32768
  let tempVal := Int16.ofInt ((tempVal + 16384) >>> 15)
  Int16.ofInt ((tempVal.toInt * dtfmDBm0.getD volume 0 + 8192) >>> 14)

/-- The loop over the samples of a frame. -/
def genSamples (aTbl : Int16 × Int16) (volume : Nat) :
    Nat → DtmfToneInst → DtmfToneInst × List Int16
  | 0, inst => (inst, [])
  | n + 1, inst =>
      let inst := { inst with
        oldOutputLow := oscillate aTbl.1 inst.oldOutputLow
        oldOutputHigh := oscillate aTbl.2 inst.oldOutputHigh }
      let rest := genSamples aTbl volume n inst
      (rest.1, mixTones inst.oldOutputLow.2 inst.oldOutputHigh.2 volume :: rest.2)

/-- `if (DTMFdecInst->reinit)`. -/
def restart (inst : DtmfToneInst) (yInit : Int16 × Int16) : DtmfToneInst :=
  if inst.reinit ≠ 0 then
    { reinit := 0, oldOutputLow := (yInit.1, 0), oldOutputHigh := (yInit.2, 0) }
  else inst

/-- What a call of `GenTone` returns, leaves and stores. -/
structure ToneSignal where
  ret : Int
  inst : DtmfToneInst
  signal : List Int16
  deriving DecidableEq, Repr

/-- `GenTone`, with a number of samples that is given. -/
def genTone (inst : DtmfToneInst) (yInit aTbl : Int16 × Int16) (volume : Nat) (extLen : Nat) :
    ToneSignal :=
  if volume > 36 then ⟨dtmfDecParameterError, inst, []⟩
  else
    let generated := genSamples aTbl volume extLen (restart inst yInit)
    ⟨extLen, generated.1, generated.2⟩

theorem genSamples_length (aTbl : Int16 × Int16) (volume n : Nat) (inst : DtmfToneInst) :
    (genSamples aTbl volume n inst).2.length = n := by
  induction n generalizing inst with
  | zero => rfl
  | succ n ih => rw [genSamples, List.length_cons, ih]

theorem genTone_length (inst : DtmfToneInst) (yInit aTbl : Int16 × Int16) {volume : Nat}
    (hvolume : volume ≤ 36) (extLen : Nat) :
    (genTone inst yInit aTbl volume extLen).signal.length = extLen := by
  rw [genTone, if_neg (not_lt.mpr hvolume)]
  exact genSamples_length aTbl volume extLen (restart inst yInit)

/-- Two instances that both start again sound the same. -/
theorem genTone_restart {first second : DtmfToneInst} (hfirst : first.reinit ≠ 0)
    (hsecond : second.reinit ≠ 0) (yInit aTbl : Int16 × Int16) {volume : Nat}
    (hvolume : volume ≤ 36) (extLen : Nat) :
    genTone first yInit aTbl volume extLen = genTone second yInit aTbl volume extLen := by
  rw [genTone, genTone, if_neg (not_lt.mpr hvolume), if_neg (not_lt.mpr hvolume), restart, restart,
    if_pos hfirst, if_pos hsecond]

end McuProxy.Tone
