/-
# The assembly mixer

`mix_assembly.s` replaces the four functions of the C mixer on ARM. Its loops
count bytes in a register and end when the count is equal to twice the length, so
each runs once more than not at all; the routines test the length before they
enter them, except for the last one. Two branches are not what they replace. The
`+3dB` branch of `fastmix_pre_amp` is a block of vector instructions for 64
samples, whatever the length. And `fastmix_sub_amp` decides whether there are
channels from flags of which a shift leaves one, V, as its caller had it.

A routine is modelled by what it leaves in the arrays and by the sample indices it
touches on the way.
-/

import McuProxy.Conf.MixFunc
import McuProxy.Math.Armv7

namespace McuProxy.Conf.Assembly

open McuProxy.Math

/-- What a routine leaves, and the indices of the samples it has read or written. -/
structure Traced (α : Type) where
  value : α
  touched : List Nat

/-- A loop over the cells of an array, by an offset that counts up in steps of the
size of a cell. -/
def sweep {α : Type} (step limit : Nat) (cell : Nat → α → Traced α) (cells : Nat → α) :
    Traced (Nat → α) :=
  untilEqual step limit (fun offset traced =>
      let result := cell (offset / step) (traced.value (offset / step))
      ⟨Function.update traced.value (offset / step) result.value,
        traced.touched ++ result.touched⟩)
    allTurns 0 ⟨cells, []⟩

/-- A loop over the halfwords of one array, up to `nLen` shifted left: `ldrsh`, an
operation and `strh`. -/
def halfwords (value : Nat → Int16 → Int16) (nLen : Nat) (samples : Nat → Int16) :
    Traced (Nat → Int16) :=
  sweep 2 (nLen * 2 % 4294967296) (fun i sample => ⟨value i sample, [i]⟩) samples

/-- The loop on the samples of a channel. -/
def onSamples (channel : FastmixIo) (nLen : Nat) (value : Nat → Int16 → Int16) :
    Traced FastmixIo :=
  let traced := halfwords value nLen channel.pAudioData
  ⟨{ channel with pAudioData := traced.value }, traced.touched⟩

/-- `vld1.16`, `vqshl.s16` and `vst1.16` of sixteen double words. -/
def vectorBlock (channel : FastmixIo) : Traced FastmixIo :=
  ⟨{ channel with pAudioData := fun i =>
      if i < 64 then vqshl (channel.pAudioData i) else channel.pAudioData i }, List.range 64⟩

/-- A channel of `fastmix_pre_amp`, from `.L15` to the next `.L10`. -/
def preAmpChannel (nLen : Nat) (channel : FastmixIo) : Traced FastmixIo :=
  match channel.amp with
  | .mixDisable =>
      if nLen = 0 then ⟨channel, []⟩ else onSamples channel nLen fun _ _ => 0
  | .mixSupp3dB =>
      if nLen = 0 then ⟨channel, []⟩
      else onSamples channel nLen fun _ sample => Int16.ofInt (sample.toInt >>> (1 : Nat))
  | .mixGain3dB => if nLen = 0 then ⟨channel, []⟩ else vectorBlock channel
  | .mixKeep0dB => ⟨channel, []⟩

/-- `fastmix_pre_amp`. -/
def fastmixPreAmp (pInput : Nat → FastmixIo) (nNum nLen : Nat) : Traced (Nat → FastmixIo) :=
  if nNum = 0 then ⟨pInput, []⟩
  else sweep 1 nNum (fun _ channel => preAmpChannel nLen channel) pInput

/-- `fastmix_sat_amp`. The pointer into the sums moves with the offset. -/
def fastmixSatAmp (pInput : Nat → Int) (pOutput : FastmixIo) (nLen : Nat) : Traced FastmixIo :=
  if nLen = 0 then ⟨pOutput, []⟩
  else match pOutput.amp with
    | .mixDisable => onSamples pOutput nLen fun _ _ => 0
    | .mixSupp3dB => onSamples pOutput nLen fun i _ => ssat16 (pInput i >>> (1 : Nat))
    | .mixGain3dB => onSamples pOutput nLen fun i _ => ssat16 (signed32 (pInput i * 2))
    | .mixKeep0dB => onSamples pOutput nLen fun i _ => ssat16 (pInput i)

/-- The inner loop of `fastmix_add`, from `.L42` to `.L43`. -/
def addChannels (pInput : Nat → FastmixIo) (nNum i : Nat) : Int :=
  if nNum = 0 then 0
  else untilEqual 1 nNum (fun j total => signed32 (total + ((pInput j).pAudioData i).toInt))
    allTurns 0 0

/-- `fastmix_add`. -/
def fastmixAdd (pInput : Nat → FastmixIo) (pOutput : Nat → Int) (nNum nLen : Nat) :
    Traced (Nat → Int) :=
  if nLen = 0 then ⟨pOutput, []⟩
  else sweep 1 nLen (fun i _ => ⟨addChannels pInput nNum i, [i]⟩) pOutput

/-- A channel of `fastmix_sub_amp`, from `.L57` to the next `.L49`. The length is not
tested. -/
def subAmpChannel (buffer : Nat → Int) (input : FastmixIo) (nLen : Nat) (output : FastmixIo) :
    Traced FastmixIo :=
  let diff (i : Nat) : Int := signed32 (buffer i - (input.pAudioData i).toInt)
  match output.amp with
  | .mixDisable => onSamples output nLen fun _ _ => 0
  | .mixSupp3dB => onSamples output nLen fun i _ => ssat16 (diff i >>> (1 : Nat))
  | .mixGain3dB => onSamples output nLen fun i _ => ssat16 (signed32 (diff i * 2))
  | .mixKeep0dB => onSamples output nLen fun i _ => ssat16 (diff i)

/-- `fastmix_sub_amp`. The shift `lsls ip, r3, #3` sets N and Z, and V is what it was
at the call. -/
def fastmixSubAmp (flagV : Bool) (buffer : Nat → Int) (pInput pOutput : Nat → FastmixIo)
    (nNum nLen : Nat) : Traced (Nat → FastmixIo) :=
  let ip := nNum * 8 % 4294967296
  if ble (ip = 0) (2147483648 ≤ ip) flagV then ⟨pOutput, []⟩
  else sweep 8 ip (fun j output => subAmpChannel buffer (pInput j) nLen output) pOutput

/-- Wherever the C function is defined, the routine leaves the same and touches no
sample at an index of `nLen` or more. -/
def Agrees {α : Type} (nLen : Nat) (routine : Traced α) (function : Option α) : Prop :=
  ∀ result, function = some result →
    routine.value = result ∧ ∀ i ∈ routine.touched, i < nLen

/-- The four routines agree with the four functions for `nNum` channels of `nLen`
samples with the given gains, whatever the samples are, when V is `flagV` at the
call of `fastmix_sub_amp`. -/
structure AgreementLaw (flagV : Bool) (nNum nLen : Nat) (inAmp outAmp : Nat → FastmixVol) :
    Prop where
  preAmp : ∀ pInput : Nat → FastmixIo, (∀ j, (pInput j).amp = inAmp j) →
    Agrees nLen (fastmixPreAmp pInput nNum nLen) (Conf.fastmixPreAmp pInput nNum nLen)
  satAmp : ∀ (pInput : Nat → Int) (pOutput : FastmixIo),
    Agrees nLen (fastmixSatAmp pInput pOutput nLen) (Conf.fastmixSatAmp pInput pOutput nLen)
  add : ∀ (pInput : Nat → FastmixIo) (pOutput : Nat → Int),
    Agrees nLen (fastmixAdd pInput pOutput nNum nLen) (Conf.fastmixAdd pInput pOutput nNum nLen)
  subAmp : ∀ (buffer : Nat → Int) (pInput pOutput : Nat → FastmixIo),
    (∀ j, (pOutput j).amp = outAmp j) →
    Agrees nLen (fastmixSubAmp flagV buffer pInput pOutput nNum nLen)
      (Conf.fastmixSubAmp buffer pInput pOutput nNum nLen)

/-- What a loop over cells leaves and touches. -/
theorem sweep_eq {α : Type} {step n : Nat} (hstep : 0 < step) (hn : 0 < n)
    (hlimit : step * n < 4294967296) (cell : Nat → α → Traced α) (cells : Nat → α) :
    sweep step (step * n) cell cells =
      ⟨fun i => if i < n then (cell i (cells i)).value else cells i,
        (List.range n).flatMap fun i => (cell i (cells i)).touched⟩ := by
  refine untilEqual_invariant (fun k (traced : Traced (Nat → α)) => traced =
    ⟨fun i => if i < k then (cell i (cells i)).value else cells i,
      (List.range k).flatMap fun i => (cell i (cells i)).touched⟩) hstep hn hlimit ?_ (by simp)
  rintro k traced hk rfl
  rw [Nat.mul_div_cancel_left k hstep]
  simp only [Nat.lt_irrefl, if_false, List.range_succ, List.flatMap_append, List.flatMap_singleton,
    Traced.mk.injEq, and_true]
  funext i
  by_cases hi : i = k
  · subst hi
    simp
  · have hbound : i < k ↔ i < k + 1 := by omega
    simp only [Function.update_of_ne hi, hbound]

/-- A loop over cells agrees with the loop of C when its body does. -/
theorem sweep_agrees {α : Type} {step n nLen : Nat} (hstep : 0 < step) (hn : 0 < n)
    (hlimit : step * n < 4294967296) {cell : Nat → α → Traced α} {value : Nat → α → Option α}
    {cells : Nat → α} (hcell : ∀ i, i < n → Agrees nLen (cell i (cells i)) (value i (cells i))) :
    Agrees nLen (sweep step (step * n) cell cells) (forCells value n cells) := by
  intro result hresult
  rw [sweep_eq hstep hn hlimit]
  refine ⟨funext fun i => ?_, fun i hi => ?_⟩
  · rcases forCells_cases hresult i with ⟨hi, hvalue⟩ | ⟨hi, hsame⟩
    · simp only [hi, if_true]
      exact (hcell i hi _ hvalue).1
    · simp only [not_lt.mpr hi, if_false, hsame]
  · obtain ⟨k, hk, htouched⟩ := List.mem_flatMap.mp hi
    have hk := List.mem_range.mp hk
    rcases forCells_cases hresult k with ⟨-, hvalue⟩ | ⟨habove, -⟩
    · exact (hcell k hk _ hvalue).2 i htouched
    · omega

/-- The sums of the two loops over the channels are the same when C has one. -/
theorem addChannels_eq {nNum : Nat} (hnum : 0 < nNum) (hnum' : nNum < 536870912)
    (pInput : Nat → FastmixIo) (i : Nat) {total : Int}
    (htotal : forUpto (fun j Ltemp => int32 (Ltemp + ((pInput j).pAudioData i).toInt)) nNum 0 =
      some total) :
    addChannels pInput nNum i = total := by
  have hsum : ∀ total, forUpto (fun j Ltemp => int32 (Ltemp + ((pInput j).pAudioData i).toInt))
      nNum 0 = some total → untilEqual 1 (1 * nNum)
        (fun j sum => signed32 (sum + ((pInput j).pAudioData i).toInt)) allTurns 0 0 = total := by
    refine untilEqual_invariant (fun k sum => ∀ total, forUpto (fun j Ltemp =>
      int32 (Ltemp + ((pInput j).pAudioData i).toInt)) k 0 = some total → sum = total)
      Nat.one_pos hnum (by omega) ?_ ?_
    · intro k sum hk hinv next hnext
      rw [forUpto_succ, Option.bind_eq_some_iff] at hnext
      obtain ⟨middle, hmiddle, hlast⟩ := hnext
      rw [Nat.one_mul, hinv middle hmiddle]
      exact signed32_of_int32 hlast
    · intro total hzero
      exact Option.some.inj hzero
  have hsame := hsum total htotal
  rw [Nat.one_mul] at hsame
  rwa [addChannels, if_neg hnum.ne']

section Channels

variable {nLen : Nat} (hlen : 0 < nLen) (hlen' : nLen < 2147483648)

include hlen hlen'

/-- The loop on the samples of a channel agrees with the loop of C when the stored
values do. -/
theorem onSamples_agrees (channel : FastmixIo) {value : Nat → Int16 → Int16}
    {value' : Nat → Int16 → Option Int16}
    (hvalue : ∀ i sample result, value' i sample = some result → value i sample = result) :
    Agrees nLen (onSamples channel nLen value) (channel.forSamples nLen value') := by
  intro result hresult
  obtain ⟨samples, hsamples, rfl⟩ := Option.map_eq_some_iff.mp hresult
  have hlimit : nLen * 2 % 4294967296 = 2 * nLen := by omega
  have hloop : Agrees nLen
      (sweep 2 (2 * nLen) (fun i sample => ⟨value i sample, [i]⟩) channel.pAudioData)
      (forCells value' nLen channel.pAudioData) :=
    sweep_agrees (by decide) hlen (by omega)
      fun i hi sample hsample => ⟨hvalue i _ sample hsample, by simpa using hi⟩
  obtain ⟨hsame, hbelow⟩ := hloop samples hsamples
  rw [← hlimit] at hsame hbelow
  exact ⟨congrArg (fun data => { channel with pAudioData := data }) hsame, hbelow⟩

/-- A channel of `fastmix_pre_amp` agrees unless it is one of the vector block and of
another length. -/
theorem preAmpChannel_agrees {channel : FastmixIo} (hgain : channel.amp = .mixGain3dB → nLen = 64) :
    Agrees nLen (preAmpChannel nLen channel) (Conf.preAmpChannel nLen channel) := by
  unfold preAmpChannel Conf.preAmpChannel
  cases hamp : channel.amp with
  | mixDisable =>
      simp only [hlen.ne', if_false]
      exact onSamples_agrees hlen hlen' channel fun i sample result hresult =>
        Option.some.inj hresult
  | mixSupp3dB =>
      simp only [hlen.ne', if_false]
      exact onSamples_agrees hlen hlen' channel fun i sample result hresult =>
        Option.some.inj hresult
  | mixKeep0dB =>
      rintro result ⟨⟩
      exact ⟨rfl, by simp⟩
  | mixGain3dB =>
      obtain rfl := hgain hamp
      rintro result hresult
      obtain ⟨samples, hsamples, rfl⟩ := Option.map_eq_some_iff.mp hresult
      refine ⟨?_, fun i hi => List.mem_range.mp hi⟩
      simp only [OfNat.ofNat_ne_zero, if_false, vectorBlock]
      congr 1
      funext i
      rcases forCells_cases hsamples i with ⟨hi, hvalue⟩ | ⟨hi, hsame⟩
      · have hsample := toInt_bounds (channel.pAudioData i)
        rw [int32_eq_some (by omega) (by omega), Option.map_some] at hvalue
        rw [if_pos hi]
        exact Option.some.inj hvalue
      · rw [if_neg (not_lt.mpr hi), hsame]

/-- `fastmix_sat_amp` agrees. -/
theorem fastmixSatAmp_agrees (pInput : Nat → Int) (pOutput : FastmixIo) :
    Agrees nLen (fastmixSatAmp pInput pOutput nLen) (Conf.fastmixSatAmp pInput pOutput nLen) := by
  unfold fastmixSatAmp Conf.fastmixSatAmp
  rw [if_neg hlen.ne']
  cases pOutput.amp with
  | mixGain3dB =>
      refine onSamples_agrees hlen hlen' pOutput fun i sample result hresult => ?_
      obtain ⟨doubled, hdoubled, rfl⟩ := Option.map_eq_some_iff.mp hresult
      rw [signed32_of_int32 hdoubled]
      rfl
  | _ =>
      exact onSamples_agrees hlen hlen' pOutput fun i sample result hresult =>
        Option.some.inj hresult

/-- A channel of `fastmix_sub_amp` agrees. -/
theorem subAmpChannel_agrees (buffer : Nat → Int) (input output : FastmixIo) :
    Agrees nLen (subAmpChannel buffer input nLen output)
      (Conf.subAmpChannel buffer input nLen output) := by
  unfold subAmpChannel Conf.subAmpChannel
  dsimp only
  cases output.amp with
  | mixDisable =>
      exact onSamples_agrees hlen hlen' output fun i sample result hresult =>
        Option.some.inj hresult
  | mixKeep0dB =>
      refine onSamples_agrees hlen hlen' output fun i sample result hresult => ?_
      obtain ⟨diff, hdiff, hresult⟩ := Option.bind_eq_some_iff.mp hresult
      rw [signed32_of_int32 hdiff]
      exact Option.some.inj hresult
  | mixSupp3dB =>
      refine onSamples_agrees hlen hlen' output fun i sample result hresult => ?_
      obtain ⟨diff, hdiff, hresult⟩ := Option.bind_eq_some_iff.mp hresult
      rw [signed32_of_int32 hdiff]
      exact Option.some.inj hresult
  | mixGain3dB =>
      refine onSamples_agrees hlen hlen' output fun i sample result hresult => ?_
      obtain ⟨diff, hdiff, hresult⟩ := Option.bind_eq_some_iff.mp hresult
      obtain ⟨doubled, hdoubled, hresult⟩ := Option.bind_eq_some_iff.mp hresult
      rw [signed32_of_int32 hdiff, signed32_of_int32 hdoubled]
      exact Option.some.inj hresult

/-- `fastmix_add` agrees. -/
theorem fastmixAdd_agrees {nNum : Nat} (hnum : 0 < nNum) (hnum' : nNum < 536870912)
    (pInput : Nat → FastmixIo) (pOutput : Nat → Int) :
    Agrees nLen (fastmixAdd pInput pOutput nNum nLen)
      (Conf.fastmixAdd pInput pOutput nNum nLen) := by
  have hloop : Agrees nLen
      (sweep 1 (1 * nLen) (fun i _ => ⟨addChannels pInput nNum i, [i]⟩) pOutput)
      (Conf.fastmixAdd pInput pOutput nNum nLen) := by
    refine sweep_agrees Nat.one_pos hlen (by omega) fun i hi total htotal => ?_
    exact ⟨addChannels_eq hnum hnum' pInput i htotal, by simpa using hi⟩
  rw [Nat.one_mul] at hloop
  rwa [fastmixAdd, if_neg hlen.ne']

/-- `fastmix_pre_amp` agrees unless there is a vector block of another length. -/
theorem fastmixPreAmp_agrees {nNum : Nat} (hnum : 0 < nNum) (hnum' : nNum < 536870912)
    {pInput : Nat → FastmixIo}
    (hgain : ∀ j, j < nNum → (pInput j).amp = .mixGain3dB → nLen = 64) :
    Agrees nLen (fastmixPreAmp pInput nNum nLen) (Conf.fastmixPreAmp pInput nNum nLen) := by
  have hloop : Agrees nLen
      (sweep 1 (1 * nNum) (fun _ channel => preAmpChannel nLen channel) pInput)
      (Conf.fastmixPreAmp pInput nNum nLen) :=
    sweep_agrees Nat.one_pos hnum (by omega) fun j hj =>
      preAmpChannel_agrees hlen hlen' (hgain j hj)
  rw [Nat.one_mul] at hloop
  rwa [fastmixPreAmp, if_neg hnum.ne']

/-- `fastmix_sub_amp` agrees when it does not take its first branch. -/
theorem fastmixSubAmp_agrees {nNum : Nat} (hnum : 0 < nNum) (hnum' : nNum < 536870912)
    {flagV : Bool} (hflag : flagV = decide (268435456 ≤ nNum)) (buffer : Nat → Int)
    (pInput pOutput : Nat → FastmixIo) :
    Agrees nLen (fastmixSubAmp flagV buffer pInput pOutput nNum nLen)
      (Conf.fastmixSubAmp buffer pInput pOutput nNum nLen) := by
  have hip : nNum * 8 % 4294967296 = 8 * nNum := by omega
  have hbranch : ble (decide (8 * nNum = 0)) (decide (2147483648 ≤ 8 * nNum)) flagV = false := by
    have hsign : 2147483648 ≤ 8 * nNum ↔ 268435456 ≤ nNum := by omega
    simp [ble, hflag, hsign, hnum.ne']
  simp only [fastmixSubAmp, hip, hbranch, Bool.false_eq_true, if_false]
  exact sweep_agrees (by decide) hnum (by omega) fun j hj =>
    subAmpChannel_agrees hlen hlen' buffer (pInput j) (pOutput j)

end Channels

/-- A channel of ones that is amplified shows where the vector block ends. -/
theorem preAmp_disagrees {nNum nLen : Nat} (hlen : 0 < nLen) (hblock : nLen ≠ 64)
    (hnum' : nNum < 536870912) {inAmp : Nat → FastmixVol} {j : Nat} (hj : j < nNum)
    (hgain : inAmp j = .mixGain3dB) :
    ¬ Agrees nLen (fastmixPreAmp (fun k => ⟨inAmp k, fun _ => 1⟩) nNum nLen)
      (Conf.fastmixPreAmp (fun k => ⟨inAmp k, fun _ => 1⟩) nNum nLen) := by
  intro hagrees
  have hsame := (hagrees _ (fastmixPreAmp_eq _ nNum nLen)).1
  have hloop := sweep_eq Nat.one_pos (show 0 < nNum by omega) (by omega)
    (fun _ channel => preAmpChannel nLen channel)
    (fun k => (⟨inAmp k, fun _ => 1⟩ : FastmixIo))
  rw [Nat.one_mul] at hloop
  rw [fastmixPreAmp, if_neg (by omega), hloop] at hsame
  have hchannel := congrFun hsame j
  simp only [hj, if_true, preAmpChannel, hgain, hlen.ne', if_false, vectorBlock,
    FastmixIo.overwrite, FastmixIo.mk.injEq, true_and] at hchannel
  -- the sample where one of the two loops is over
  have hsample := congrFun hchannel (min 64 nLen)
  rcases lt_or_gt_of_ne hblock with hshort | hlong
  · rw [min_eq_right hshort.le, if_pos hshort, if_neg (lt_irrefl nLen)] at hsample
    exact absurd hsample (by decide)
  · rw [min_eq_left hlong.le, if_neg (lt_irrefl 64), if_pos hlong] at hsample
    exact absurd hsample (by decide)

/-- An output that is not silent shows that the first branch was taken. -/
theorem subAmp_disagrees {nNum nLen : Nat} (hnum : 0 < nNum) (hnum' : nNum < 536870912)
    (hlen : 0 < nLen) {flagV : Bool} (hflag : flagV ≠ decide (268435456 ≤ nNum))
    (outAmp : Nat → FastmixVol) :
    ¬ Agrees nLen
      (fastmixSubAmp flagV (fun _ => 0) (fun _ => ⟨.mixKeep0dB, fun _ => 0⟩)
        (fun k => ⟨outAmp k, fun _ => 5⟩) nNum nLen)
      (Conf.fastmixSubAmp (fun _ => 0) (fun _ => ⟨.mixKeep0dB, fun _ => 0⟩)
        (fun k => ⟨outAmp k, fun _ => 5⟩) nNum nLen) := by
  intro hagrees
  have hip : nNum * 8 % 4294967296 = 8 * nNum := by omega
  have hbranch : ble (decide (8 * nNum = 0)) (decide (2147483648 ≤ 8 * nNum)) flagV = true := by
    have hsign : 2147483648 ≤ 8 * nNum ↔ 268435456 ≤ nNum := by omega
    simp [ble, hsign, Ne.symm hflag]
  have hchannel : ∀ j, j < nNum → ∃ samples : Nat → Int16,
      Conf.subAmpChannel (fun _ => 0) ⟨.mixKeep0dB, fun _ => 0⟩ nLen ⟨outAmp j, fun _ => 5⟩ =
          some ((⟨outAmp j, fun _ => 5⟩ : FastmixIo).overwrite nLen samples) ∧
        ∀ i, (samples i).toInt = postGain (outAmp j) (0 - (0 : Int16).toInt) :=
    fun j _ => subAmpChannel_eq _ _ _ nLen fun i _ => by
      dsimp only
      decide
  choose samples hsamples hvalue using hchannel
  have hfunction := forCells_eq
    (fun j => if hj : j < nNum then
      (⟨outAmp j, fun _ => 5⟩ : FastmixIo).overwrite nLen (samples j hj)
      else ⟨outAmp j, fun _ => 5⟩)
    (fun j hj => (hsamples j hj).trans (by rw [dif_pos hj]))
  have hsame := (hagrees _ hfunction).1
  simp only [fastmixSubAmp, hip, hbranch, if_true] at hsame
  have hfirst := congrArg (fun channel => channel.pAudioData 0) (congrFun hsame 0)
  simp only [hnum, if_true, dif_pos, FastmixIo.overwrite, hlen] at hfirst
  have hzero := hvalue 0 hnum 0
  rw [← hfirst] at hzero
  cases houtput : outAmp 0 <;> rw [houtput] at hzero <;> exact absurd hzero (by decide)

/-- The assembly mixer agrees with the C mixer on all samples exactly when no input
is amplified by +3dB or a frame has 64 samples, and V is at the call of
`fastmix_sub_amp` the sign of the length of the array of channels. An array of
channels fits the address space, and a length is an `int`. -/
theorem agreementLaw_iff {nNum nLen : Nat} (hnum : 0 < nNum) (hnum' : nNum < 536870912)
    (hlen : 0 < nLen) (hlen' : nLen < 2147483648) (flagV : Bool)
    (inAmp outAmp : Nat → FastmixVol) :
    AgreementLaw flagV nNum nLen inAmp outAmp ↔
      (nLen = 64 ∨ ∀ j, j < nNum → inAmp j ≠ .mixGain3dB) ∧
        flagV = decide (268435456 ≤ nNum) := by
  constructor
  · intro hlaw
    constructor
    · refine or_iff_not_imp_left.mpr fun hblock j hj hgain => ?_
      exact preAmp_disagrees hlen hblock hnum' hj hgain (hlaw.preAmp _ fun _ => rfl)
    · by_contra hflag
      exact subAmp_disagrees hnum hnum' hlen hflag outAmp (hlaw.subAmp _ _ _ fun _ => rfl)
  · rintro ⟨hgain, hflag⟩
    refine ⟨fun pInput hamp => ?_, fastmixSatAmp_agrees hlen hlen',
      fastmixAdd_agrees hlen hlen' hnum hnum', fun buffer pInput pOutput _ =>
        fastmixSubAmp_agrees hlen hlen' hnum hnum' hflag buffer pInput pOutput⟩
    refine fastmixPreAmp_agrees hlen hlen' hnum hnum' fun j hj hamped => ?_
    exact hgain.resolve_right fun hnone => hnone j hj (by rw [← hamp j, hamped])

theorem agreementLaw_iff_block :
    AgreementLaw false 2 64 (fun _ => .mixGain3dB) fun _ => .mixSupp3dB :=
  (agreementLaw_iff (by decide) (by decide) (by decide) (by decide) _ _ _).mpr
    ⟨.inl rfl, by decide⟩

/-- A frame of 160 samples is amplified in its first 64 only. -/
theorem agreementLaw_fails_at_long_frame :
    ¬ AgreementLaw false 1 160 (fun _ => .mixGain3dB) fun _ => .mixKeep0dB := by
  intro hlaw
  exact preAmp_disagrees (by decide) (by decide) (by decide) Nat.one_pos rfl
    (hlaw.preAmp _ fun _ => rfl)

end McuProxy.Conf.Assembly
