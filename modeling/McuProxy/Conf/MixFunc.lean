/-
# The fixed-point mixer

The mixer works on channels of 16-bit samples. It applies every input's own
gain in place, adds all inputs into a 32-bit buffer, and gives each output the
buffer less that output's own input, again with a gain. The functions here are
those of the C mixer: same loops, same branches on the gain, same order of the
stores; a signed operation that overflows has no result.

The law of the whole pipeline is `mix_minus_law`: every output is the saturated
gain of the sum over the *other* channels.
-/

import McuProxy.Math.CSemantics
import Mathlib.Algebra.BigOperators.Intervals
import Mathlib.Algebra.Order.BigOperators.Group.Finset
import Mathlib.Tactic

namespace McuProxy.Conf

open McuProxy.Math

/-- `fastmix_vol_t`, the gain of one input or output. -/
inductive FastmixVol
  | mixDisable
  | mixKeep0dB
  | mixSupp3dB
  | mixGain3dB
  deriving DecidableEq, Repr

/-- `fastmix_io_t`: one channel, its gain and its samples. Distinct channels own
distinct buffers, so a channel carries its samples rather than a pointer. -/
structure FastmixIo where
  amp : FastmixVol
  pAudioData : Nat → Int16

/-- Saturation of an `int` to a `short`. -/
def sature32 (temp : Int) : Int16 :=
  if temp > 32767 then 32767
  else if temp < -32768 then -32768
  else Int16.ofInt temp

/-- The loop over one channel's samples:
`for (i = 0; i < nLen; ++i) pAudioData[i] = value(i, pAudioData[i])`. -/
def FastmixIo.forSamples (channel : FastmixIo) (nLen : Nat)
    (value : Nat → Int16 → Option Int16) : Option FastmixIo :=
  (forCells value nLen channel.pAudioData).map fun data => { channel with pAudioData := data }

/-- One channel of `fastmix_pre_amp`: the gain is tested once, outside the loop
over the samples. -/
def preAmpChannel (nLen : Nat) (channel : FastmixIo) : Option FastmixIo :=
  match channel.amp with
  | .mixDisable => channel.forSamples nLen fun _ _ => some 0
  | .mixSupp3dB =>
      channel.forSamples nLen fun _ sample => some (Int16.ofInt (sample.toInt >>> (1 : Nat)))
  | .mixGain3dB =>
      channel.forSamples nLen fun _ sample => (int32 (sample.toInt * 2)).map sature32
  | .mixKeep0dB => some channel

/-- `fastmix_pre_amp`: every input after its own gain, in place. -/
def fastmixPreAmp (pInput : Nat → FastmixIo) (nNum nLen : Nat) : Option (Nat → FastmixIo) :=
  forCells (fun _ channel => preAmpChannel nLen channel) nNum pInput

/-- `fastmix_sat_amp`: the buffer with the output's gain, saturated. -/
def fastmixSatAmp (pInput : Nat → Int) (pOutput : FastmixIo) (nLen : Nat) : Option FastmixIo :=
  match pOutput.amp with
  | .mixDisable => pOutput.forSamples nLen fun _ _ => some 0
  | .mixSupp3dB => pOutput.forSamples nLen fun i _ => some (sature32 (pInput i >>> (1 : Nat)))
  | .mixGain3dB => pOutput.forSamples nLen fun i _ => (int32 (pInput i * 2)).map sature32
  | .mixKeep0dB => pOutput.forSamples nLen fun i _ => some (sature32 (pInput i))

/-- `fastmix_add`: the sum of all inputs, sample by sample. The dither state of
the source is unused. -/
def fastmixAdd (pInput : Nat → FastmixIo) (pOutput : Nat → Int) (nNum nLen : Nat) :
    Option (Nat → Int) :=
  forCells (fun i _ =>
    forUpto (fun j Ltemp => int32 (Ltemp + ((pInput j).pAudioData i).toInt)) nNum 0)
    nLen pOutput

/-- One channel of `fastmix_sub_amp`: the buffer less the channel's own input. -/
def subAmpChannel (buffer : Nat → Int) (input : FastmixIo) (nLen : Nat) (output : FastmixIo) :
    Option FastmixIo :=
  let diff (i : Nat) : Option Int := int32 (buffer i - (input.pAudioData i).toInt)
  match output.amp with
  | .mixDisable => output.forSamples nLen fun _ _ => some 0
  | .mixSupp3dB => output.forSamples nLen fun i _ => do
      let Ltemp ← diff i
      return sature32 (Ltemp >>> (1 : Nat))
  | .mixGain3dB => output.forSamples nLen fun i _ => do
      let dtemp ← int32 ((← diff i) * 2)
      return sature32 dtemp
  | .mixKeep0dB => output.forSamples nLen fun i _ => do
      let Ltemp ← diff i
      return sature32 Ltemp

/-- `fastmix_sub_amp`. -/
def fastmixSubAmp (buffer : Nat → Int) (pInput pOutput : Nat → FastmixIo) (nNum nLen : Nat) :
    Option (Nat → FastmixIo) :=
  forCells (fun j output => subAmpChannel buffer (pInput j) nLen output) nNum pOutput

/-- `status_t` values of the platform that the conference code returns. -/
def noError : Int := 0

/-- What a call of `AudioConfMix::mix` returns and leaves in its arguments. -/
structure MixResult where
  status : Int
  pInput : Option (Nat → FastmixIo)
  buffer : Option (Nat → Int)
  pFull : Option FastmixIo
  pInter : Option (Nat → FastmixIo)

/-- `AudioConfMix::mix`. Each of the four pointers may be null; only a null
input or buffer is an error. -/
def mix (mSourceNum mSampleLen : Nat) (pInput : Option (Nat → FastmixIo))
    (buffer : Option (Nat → Int)) (pFull : Option FastmixIo)
    (pInter : Option (Nat → FastmixIo)) : Option MixResult :=
  match pInput, buffer with
  | some pInput, some buffer => do
      let pInput ← fastmixPreAmp pInput mSourceNum mSampleLen
      let buffer ← fastmixAdd pInput buffer mSourceNum mSampleLen
      let pFull ← match pFull with
        | none => some none
        | some full => (fastmixSatAmp buffer full mSampleLen).map some
      let pInter ← match pInter with
        | none => some none
        | some inter => (fastmixSubAmp buffer pInput inter mSourceNum mSampleLen).map some
      return { status := noError, pInput := some pInput, buffer := some buffer, pFull, pInter }
  | pInput, buffer => some { status := -1, pInput, buffer, pFull, pInter }

/-! ## What the mixer is for

The gains on plain integers. An input's gain saturates only where it doubles;
an output's gain always saturates. -/

/-- Clamping to the range of a 16-bit sample. -/
def sat16 (value : Int) : Int := max (-32768) (min 32767 value)

/-- The gain of an input. -/
def preGain : FastmixVol → Int → Int
  | .mixDisable, _ => 0
  | .mixKeep0dB, sample => sample
  | .mixSupp3dB, sample => sample >>> (1 : Nat)
  | .mixGain3dB, sample => sat16 (2 * sample)

/-- The gain of an output. -/
def postGain : FastmixVol → Int → Int
  | .mixDisable, _ => 0
  | .mixKeep0dB, total => sat16 total
  | .mixSupp3dB, total => sat16 (total >>> (1 : Nat))
  | .mixGain3dB, total => sat16 (2 * total)

theorem toInt_bounds (sample : Int16) : -32768 ≤ sample.toInt ∧ sample.toInt ≤ 32767 := by
  have hlow := sample.le_toInt
  have hhigh := sample.toInt_lt
  omega

theorem shiftRight_one (value : Int) : value >>> (1 : Nat) = value / 2 := by
  simp [Int.shiftRight_eq_div_pow]

/-- The code's saturation clamps. -/
@[simp]
theorem toInt_sature32 (temp : Int) : (sature32 temp).toInt = sat16 temp := by
  unfold sature32 sat16
  split
  · have : (32767 : Int16).toInt = 32767 := by decide
    omega
  · split
    · have : (-32768 : Int16).toInt = -32768 := by decide
      omega
    · rw [Int16.toInt_ofInt_of_le (by omega) (by omega)]
      omega

/-- A sample after its input gain, as the code stores it. -/
def preAmpSample (amp : FastmixVol) (sample : Int16) : Int16 :=
  Int16.ofInt (preGain amp sample.toInt)

theorem preGain_bounds (amp : FastmixVol) (sample : Int16) :
    -32768 ≤ preGain amp sample.toInt ∧ preGain amp sample.toInt ≤ 32767 := by
  have hsample := toInt_bounds sample
  cases amp with
  | mixDisable => simp [preGain]
  | mixKeep0dB => simpa [preGain] using hsample
  | mixSupp3dB =>
      simp only [preGain, shiftRight_one]
      omega
  | mixGain3dB =>
      simp only [preGain, sat16]
      omega

@[simp]
theorem toInt_preAmpSample (amp : FastmixVol) (sample : Int16) :
    (preAmpSample amp sample).toInt = preGain amp sample.toInt := by
  have hbounds := preGain_bounds amp sample
  exact Int16.toInt_ofInt_of_le (by omega) (by omega)

/-- A channel whose first `nLen` samples are replaced. -/
def FastmixIo.overwrite (channel : FastmixIo) (nLen : Nat) (samples : Nat → Int16) : FastmixIo :=
  { channel with pAudioData := fun i => if i < nLen then samples i else channel.pAudioData i }

theorem FastmixIo.forSamples_eq {channel : FastmixIo} {nLen : Nat}
    {value : Nat → Int16 → Option Int16} (samples : Nat → Int16)
    (hvalue : ∀ i, i < nLen → value i (channel.pAudioData i) = some (samples i)) :
    channel.forSamples nLen value = some (channel.overwrite nLen samples) := by
  rw [FastmixIo.forSamples, forCells_eq samples hvalue, Option.map_some]
  rfl

theorem preAmpChannel_eq (nLen : Nat) (channel : FastmixIo) :
    preAmpChannel nLen channel = some
      (channel.overwrite nLen fun i => preAmpSample channel.amp (channel.pAudioData i)) := by
  obtain ⟨amp, data⟩ := channel
  cases amp with
  | mixDisable => exact FastmixIo.forSamples_eq _ fun i _ => rfl
  | mixKeep0dB =>
      simp only [preAmpChannel, FastmixIo.overwrite, preAmpSample, preGain, Int16.ofInt_toInt,
        ite_self]
  | mixSupp3dB => exact FastmixIo.forSamples_eq _ fun i _ => rfl
  | mixGain3dB =>
      apply FastmixIo.forSamples_eq
      intro i _
      dsimp only
      have hsample := toInt_bounds (data i)
      rw [int32_eq_some (by omega) (by omega), Option.map_some]
      congr 1
      rw [← Int16.toInt_inj, toInt_sature32, toInt_preAmpSample, preGain, Int.mul_comm]

/-- `fastmix_pre_amp` applies every input's gain to the samples below `nLen` and
touches nothing else. -/
theorem fastmixPreAmp_eq (pInput : Nat → FastmixIo) (nNum nLen : Nat) :
    fastmixPreAmp pInput nNum nLen = some fun j =>
      if j < nNum then
        (pInput j).overwrite nLen fun i => preAmpSample (pInput j).amp ((pInput j).pAudioData i)
      else pInput j :=
  forCells_eq _ fun j _ => preAmpChannel_eq nLen (pInput j)

/-- The sum of one sample over a set of channels. -/
def sampleSum (pInput : Nat → FastmixIo) (channels : Finset Nat) (i : Nat) : Int :=
  ∑ k ∈ channels, ((pInput k).pAudioData i).toInt

/-- `n` samples add up to at most `n` times the largest sample. -/
theorem sampleSum_bounds (pInput : Nat → FastmixIo) (channels : Finset Nat) (i : Nat) :
    -(32768 * (channels.card : Int)) ≤ sampleSum pInput channels i ∧
      sampleSum pInput channels i ≤ 32767 * (channels.card : Int) := by
  induction channels using Finset.induction_on with
  | empty => simp [sampleSum]
  | insert k channels hk ih =>
      have hsample := toInt_bounds ((pInput k).pAudioData i)
      simp only [sampleSum] at ih ⊢
      rw [Finset.sum_insert hk, Finset.card_insert_of_notMem hk]
      push_cast
      omega

/-- `fastmix_add` computes the sums, without overflow for up to 32768 channels. -/
theorem fastmixAdd_eq (pInput : Nat → FastmixIo) (pOutput : Nat → Int) {nNum : Nat}
    (hnum : nNum ≤ 32768) (nLen : Nat) :
    fastmixAdd pInput pOutput nNum nLen = some fun i =>
      if i < nLen then sampleSum pInput (Finset.range nNum) i else pOutput i := by
  apply forCells_eq
  intro i _
  obtain ⟨total, htotal, hsum⟩ := forUpto_invariant
    (fun j Ltemp => int32 (Ltemp + ((pInput j).pAudioData i).toInt)) (n := nNum) 0
    (fun bound Ltemp => Ltemp = sampleSum pInput (Finset.range bound) i)
    (by simp [sampleSum]) (by
      intro j Ltemp hj hLtemp
      have hnext := sampleSum_bounds pInput (Finset.range (j + 1)) i
      have hsucc : sampleSum pInput (Finset.range (j + 1)) i =
          Ltemp + ((pInput j).pAudioData i).toInt := by
        rw [hLtemp, sampleSum, Finset.sum_range_succ]
        rfl
      rw [Finset.card_range] at hnext
      refine ⟨_, int32_eq_some ?_ ?_, hsucc.symm⟩ <;> omega)
  rw [htotal, hsum]

/-- `fastmix_sat_amp` of a buffer that can be doubled without overflow. -/
theorem fastmixSatAmp_eq (pInput : Nat → Int) (pOutput : FastmixIo) (nLen : Nat)
    (hdouble : ∀ i, i < nLen → -1073741824 ≤ pInput i ∧ pInput i ≤ 1073741823) :
    ∃ samples : Nat → Int16,
      fastmixSatAmp pInput pOutput nLen = some (pOutput.overwrite nLen samples) ∧
        ∀ i, (samples i).toInt = postGain pOutput.amp (pInput i) := by
  obtain ⟨amp, data⟩ := pOutput
  cases amp with
  | mixDisable => exact ⟨fun _ => 0, FastmixIo.forSamples_eq _ fun i _ => rfl, fun i => rfl⟩
  | mixKeep0dB =>
      exact ⟨fun i => sature32 (pInput i), FastmixIo.forSamples_eq _ fun i _ => rfl,
        fun i => toInt_sature32 _⟩
  | mixSupp3dB =>
      exact ⟨fun i => sature32 (pInput i >>> (1 : Nat)), FastmixIo.forSamples_eq _ fun i _ => rfl,
        fun i => toInt_sature32 _⟩
  | mixGain3dB =>
      refine ⟨fun i => sature32 (pInput i * 2), FastmixIo.forSamples_eq _ fun i hi => ?_,
        fun i => ?_⟩
      · have hrange := hdouble i hi
        rw [int32_eq_some (by omega) (by omega), Option.map_some]
      · rw [toInt_sature32, postGain, Int.mul_comm]

/-- One output of `fastmix_sub_amp`, when the difference to the channel's own
input can be doubled without overflow. -/
theorem subAmpChannel_eq (buffer : Nat → Int) (input output : FastmixIo) (nLen : Nat)
    (hdouble : ∀ i, i < nLen →
      -1073741824 ≤ buffer i - (input.pAudioData i).toInt ∧
        buffer i - (input.pAudioData i).toInt ≤ 1073741823) :
    ∃ samples : Nat → Int16,
      subAmpChannel buffer input nLen output = some (output.overwrite nLen samples) ∧
        ∀ i, (samples i).toInt =
          postGain output.amp (buffer i - (input.pAudioData i).toInt) := by
  have hdiff : ∀ i, i < nLen → int32 (buffer i - (input.pAudioData i).toInt) =
      some (buffer i - (input.pAudioData i).toInt) := by
    intro i hi
    have hrange := hdouble i hi
    exact int32_eq_some (by omega) (by omega)
  obtain ⟨amp, data⟩ := output
  cases amp with
  | mixDisable => exact ⟨fun _ => 0, FastmixIo.forSamples_eq _ fun i _ => rfl, fun i => rfl⟩
  | mixKeep0dB =>
      refine ⟨fun i => sature32 (buffer i - (input.pAudioData i).toInt),
        FastmixIo.forSamples_eq _ fun i hi => ?_, fun i => toInt_sature32 _⟩
      simp [hdiff i hi]
  | mixSupp3dB =>
      refine ⟨fun i => sature32 ((buffer i - (input.pAudioData i).toInt) >>> (1 : Nat)),
        FastmixIo.forSamples_eq _ fun i hi => ?_, fun i => toInt_sature32 _⟩
      simp [hdiff i hi]
  | mixGain3dB =>
      refine ⟨fun i => sature32 ((buffer i - (input.pAudioData i).toInt) * 2),
        FastmixIo.forSamples_eq _ fun i hi => ?_, fun i => ?_⟩
      · have hrange := hdouble i hi
        have htwice : int32 ((buffer i - (input.pAudioData i).toInt) * 2) =
            some ((buffer i - (input.pAudioData i).toInt) * 2) :=
          int32_eq_some (by omega) (by omega)
        simp [hdiff i hi, htwice]
      · rw [toInt_sature32, postGain, Int.mul_comm]

/-- The channels after `fastmix_pre_amp`. -/
def preAmped (pInput : Nat → FastmixIo) (nNum nLen : Nat) : Nat → FastmixIo := fun j =>
  if j < nNum then
    (pInput j).overwrite nLen fun i => preAmpSample (pInput j).amp ((pInput j).pAudioData i)
  else pInput j

/-- The buffer after `fastmix_add` of the amplified channels. -/
def mixBuffer (pInput : Nat → FastmixIo) (buffer : Nat → Int) (nNum nLen : Nat) : Nat → Int :=
  fun i => if i < nLen then sampleSum (preAmped pInput nNum nLen) (Finset.range nNum) i
    else buffer i

/-- A sum of amplified samples is the sum of the input gains. -/
theorem sampleSum_preAmped (pInput : Nat → FastmixIo) {nNum nLen : Nat} {channels : Finset Nat}
    (hchannels : channels ⊆ Finset.range nNum) {i : Nat} (hi : i < nLen) :
    sampleSum (preAmped pInput nNum nLen) channels i =
      ∑ k ∈ channels, preGain (pInput k).amp ((pInput k).pAudioData i).toInt := by
  apply Finset.sum_congr rfl
  intro k hk
  have hbound : k < nNum := Finset.mem_range.mp (hchannels hk)
  simp [preAmped, hbound, FastmixIo.overwrite, hi]

/-- The buffer less a channel's own amplified input is the sum over the others. -/
theorem sampleSum_erase (pInput : Nat → FastmixIo) {nNum j : Nat} (hj : j < nNum) (i : Nat) :
    sampleSum pInput (Finset.range nNum) i - ((pInput j).pAudioData i).toInt =
      sampleSum pInput ((Finset.range nNum).erase j) i :=
  (Finset.sum_erase_eq_sub (Finset.mem_range.mpr hj)).symm

/-- The sums the outputs are computed from can be doubled without overflow. -/
theorem sampleSum_double (pInput : Nat → FastmixIo) {channels : Finset Nat}
    (hcard : channels.card ≤ 32768) (i : Nat) :
    -1073741824 ≤ sampleSum pInput channels i ∧
      sampleSum pInput channels i ≤ 1073741823 := by
  have hbounds := sampleSum_bounds pInput channels i
  constructor <;> omega

/-- The channels of `fastmix_sub_amp` for up to 32768 amplified inputs. -/
theorem fastmixSubAmp_eq (pInput pOutput : Nat → FastmixIo) (buffer : Nat → Int) {nNum : Nat}
    (hnum : nNum ≤ 32768) (nLen : Nat)
    (hbuffer : ∀ i, i < nLen → buffer i = sampleSum pInput (Finset.range nNum) i) :
    ∃ result, fastmixSubAmp buffer pInput pOutput nNum nLen = some result ∧
      ∀ j, j < nNum → ∀ i, i < nLen → (((result j).pAudioData i).toInt =
        postGain (pOutput j).amp (sampleSum pInput ((Finset.range nNum).erase j) i)) := by
  have hchannel : ∀ j, j < nNum → ∃ samples : Nat → Int16,
      subAmpChannel buffer (pInput j) nLen (pOutput j) =
          some ((pOutput j).overwrite nLen samples) ∧
        ∀ i, (samples i).toInt =
          postGain (pOutput j).amp (buffer i - ((pInput j).pAudioData i).toInt) := by
    intro j hj
    apply subAmpChannel_eq
    intro i hi
    rw [hbuffer i hi, sampleSum_erase pInput hj]
    apply sampleSum_double
    exact (Finset.card_erase_le).trans (by simpa using hnum)
  choose samples hsamples hvalue using hchannel
  refine ⟨_, forCells_eq (fun j => if hj : j < nNum then
      (pOutput j).overwrite nLen (samples j hj) else pOutput j) (fun j hj => ?_), ?_⟩
  · rw [dif_pos hj]
    exact hsamples j hj
  · intro j hj i hi
    simp only [hj, if_pos, dif_pos, FastmixIo.overwrite, hi]
    rw [hvalue j hj i, hbuffer i hi, sampleSum_erase pInput hj]

/-- The pipeline of `AudioConfMix::mix` for up to 32768 channels: it is defined,
and the two outputs are the gains of the sums of the amplified inputs. -/
theorem mix_outputs {nNum : Nat} (hnum : nNum ≤ 32768) (nLen : Nat)
    (pInput : Nat → FastmixIo) (buffer : Nat → Int) (pFull : Option FastmixIo)
    (pInter : Nat → FastmixIo) :
    ∃ result inter,
      mix nNum nLen (some pInput) (some buffer) pFull (some pInter) = some result ∧
      result.status = noError ∧
      result.pInput = some (preAmped pInput nNum nLen) ∧
      result.pInter = some inter ∧
      (∀ full, pFull = some full → ∃ full', result.pFull = some full' ∧
        ∀ i, i < nLen → (full'.pAudioData i).toInt = postGain full.amp
          (∑ k ∈ Finset.range nNum, preGain (pInput k).amp ((pInput k).pAudioData i).toInt)) ∧
      ∀ j, j < nNum → ∀ i, i < nLen → ((inter j).pAudioData i).toInt = postGain (pInter j).amp
        (∑ k ∈ (Finset.range nNum).erase j,
          preGain (pInput k).amp ((pInput k).pAudioData i).toInt) := by
  have hpre : fastmixPreAmp pInput nNum nLen = some (preAmped pInput nNum nLen) :=
    fastmixPreAmp_eq pInput nNum nLen
  have hadd : fastmixAdd (preAmped pInput nNum nLen) buffer nNum nLen =
      some (mixBuffer pInput buffer nNum nLen) :=
    fastmixAdd_eq (preAmped pInput nNum nLen) buffer hnum nLen
  obtain ⟨inter, hinter, hvalue⟩ := fastmixSubAmp_eq (preAmped pInput nNum nLen) pInter
    (mixBuffer pInput buffer nNum nLen) hnum nLen (fun i hi => if_pos hi)
  have hothers : ∀ j, j < nNum → ∀ i, i < nLen →
      ((inter j).pAudioData i).toInt = postGain (pInter j).amp
        (∑ k ∈ (Finset.range nNum).erase j,
          preGain (pInput k).amp ((pInput k).pAudioData i).toInt) := by
    intro j hj i hi
    rw [hvalue j hj i hi, sampleSum_preAmped pInput (Finset.erase_subset _ _) hi]
  cases pFull with
  | none =>
      refine ⟨⟨noError, some (preAmped pInput nNum nLen),
        some (mixBuffer pInput buffer nNum nLen), none, some inter⟩, inter, ?_,
        rfl, rfl, rfl, by simp, hothers⟩
      simp [mix, hpre, hadd, hinter]
  | some full =>
      obtain ⟨samples, hsat, hfull⟩ := fastmixSatAmp_eq
        (mixBuffer pInput buffer nNum nLen) full nLen (fun i hi => by
          simp only [mixBuffer, hi, if_pos]
          exact sampleSum_double _ (by simpa using hnum) i)
      refine ⟨⟨noError, some (preAmped pInput nNum nLen),
        some (mixBuffer pInput buffer nNum nLen), some (full.overwrite nLen samples), some inter⟩,
        inter, ?_, rfl, rfl, rfl, ?_, hothers⟩
      · simp [mix, hpre, hadd, hsat, hinter]
      · rintro _ ⟨⟩
        refine ⟨_, rfl, fun i hi => ?_⟩
        simp only [FastmixIo.overwrite, mixBuffer, hi, if_pos, hfull]
        rw [sampleSum_preAmped pInput (Finset.Subset.refl _) hi]

/-- Mix-minus. For every number of channels up to 32768, all gains and all
samples, the pipeline is defined (no 32-bit operation in it overflows), the
full output is the gain of the sum of all amplified inputs, and channel `j`
gets the gain of the sum over the other channels. Replacing channel `j`'s own
input, samples and gain, leaves the samples it is sent as they were. -/
theorem mix_minus_law {nNum : Nat} (hnum : nNum ≤ 32768) (nLen : Nat)
    (pInput : Nat → FastmixIo) (buffer : Nat → Int) (pFull : FastmixIo)
    (pInter : Nat → FastmixIo) :
    ∃ result full inter,
      mix nNum nLen (some pInput) (some buffer) (some pFull) (some pInter) = some result ∧
      result.status = noError ∧ result.pFull = some full ∧ result.pInter = some inter ∧
      (∀ i, i < nLen → (full.pAudioData i).toInt = postGain pFull.amp
        (∑ k ∈ Finset.range nNum, preGain (pInput k).amp ((pInput k).pAudioData i).toInt)) ∧
      (∀ j, j < nNum → ∀ i, i < nLen → ((inter j).pAudioData i).toInt = postGain (pInter j).amp
        (∑ k ∈ (Finset.range nNum).erase j,
          preGain (pInput k).amp ((pInput k).pAudioData i).toInt)) ∧
      ∀ j, j < nNum → ∀ own : FastmixIo, ∃ result' inter',
        mix nNum nLen (some (Function.update pInput j own)) (some buffer) (some pFull)
          (some pInter) = some result' ∧
        result'.pInter = some inter' ∧
        ∀ i, i < nLen → (inter' j).pAudioData i = (inter j).pAudioData i := by
  obtain ⟨result, inter, hmix, hstatus, _, hinter, hfull, hothers⟩ :=
    mix_outputs hnum nLen pInput buffer (some pFull) pInter
  obtain ⟨full, hresult, hvalue⟩ := hfull pFull rfl
  refine ⟨result, full, inter, hmix, hstatus, hresult, hinter, hvalue, hothers, ?_⟩
  intro j hj own
  obtain ⟨result', inter', hmix', _, _, hinter', _, hothers'⟩ :=
    mix_outputs hnum nLen (Function.update pInput j own) buffer (some pFull) pInter
  refine ⟨result', inter', hmix', hinter', fun i hi => ?_⟩
  rw [← Int16.toInt_inj, hothers j hj i hi, hothers' j hj i hi]
  -- The sum runs over the channels other than `j`, where the two inputs agree.
  congr 1
  apply Finset.sum_congr rfl
  intro k hk
  rw [Function.update_of_ne (Finset.ne_of_mem_erase hk)]

/-- Two channels at full scale, each sent the other's samples doubled and
saturated. -/
theorem mix_minus_law_two :
    (2 ≤ 32768) ∧ ∃ result full inter,
      mix 2 1 (some fun _ => ⟨.mixKeep0dB, fun _ => 32767⟩) (some fun _ => 0)
        (some ⟨.mixSupp3dB, fun _ => 0⟩) (some fun _ => ⟨.mixGain3dB, fun _ => 0⟩) =
          some result ∧
      result.pFull = some full ∧ result.pInter = some inter ∧
      (full.pAudioData 0).toInt = 32767 ∧ ((inter 1).pAudioData 0).toInt = 32767 := by
  refine ⟨by decide, ?_⟩
  obtain ⟨result, full, inter, hmix, _, hfull, hinter, hvalue, hothers, _⟩ :=
    mix_minus_law (show 2 ≤ 32768 by decide) 1 (fun _ => ⟨.mixKeep0dB, fun _ => 32767⟩)
      (fun _ => 0) ⟨.mixSupp3dB, fun _ => 0⟩ (fun _ => ⟨.mixGain3dB, fun _ => 0⟩)
  refine ⟨result, full, inter, hmix, hfull, hinter, ?_, ?_⟩
  · rw [hvalue 0 (by decide)]
    decide
  · rw [hothers 1 (by decide) 0 (by decide)]
    decide

end McuProxy.Conf
