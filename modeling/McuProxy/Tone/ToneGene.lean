/-
# The tone generator

`ToneGene::updateFrame` is called every ten milliseconds. It takes a cadence off the
front of its list, keeps a copy that it counts down, and for as long as the copy
lasts it fills the frame with tone and then with silence. In the endless mode the
cadence is put back at the end of the list, with its full times, before the copy is
counted down.

The copy is thrown away in the call that counts its times to zero, so a copy that is
kept always has something left. This is what makes each call give one frame of the
cadence that it takes off the list. A cadence with both times zero is the exception:
it is taken off, nothing is generated for it, and what the buffer held is copied
once more.

The abstract player says which ten milliseconds come next, and a voice says what they
sound like: one call is a turn of the player, and fills the buffer as the voice does.

`EVENT_SAMPLES` is a parameter of the model, and so is `get_tone_ceff`, which
computes in floating point. The allocation of the copy is taken to succeed.
-/

import McuProxy.Math.Playback
import McuProxy.Tone.Voice

namespace McuProxy.Tone

open McuProxy.Math

/-- `Cadence`. The times are in milliseconds. -/
structure Cadence where
  freq1 : UInt32
  freq2 : UInt32
  timeOn : Int
  timeOff : Int
  deriving DecidableEq, Repr

/-- `ToneGene`. -/
structure ToneGene where
  toneInTx : Bool
  toneGenINF : Bool
  mToneList : List Cadence
  cadNow : Option Cadence
  freq1 : Int16
  freq2 : Int16
  yInit : Int16 × Int16
  aTbl : Int16 × Int16
  dtmfdec : DtmfToneInst
  toneBuf : List Int16
  deriving DecidableEq, Repr

/-- The arguments of `updateFrame`; of the frame only whether it is `NULL`. -/
structure FrameCall where
  frameNull : Bool
  nSamples : UInt32
  value : UInt16
  refresh : Bool
  deriving DecidableEq, Repr

/-- What a call returns, and the frame that it writes, if it writes one. -/
structure FrameOutcome where
  status : Int
  frame : Option Frame
  gen : ToneGene
  deriving DecidableEq, Repr

def noError : Int := 0

def badValue : Int := -22

namespace ToneGene

variable (tables : ToneTables)

/-- The constructor. It leaves the buffer, the coefficients and the oscillators as
it finds them. -/
def new (yInit aTbl : Int16 × Int16) (dtmfdec : DtmfToneInst) (toneBuf : List Int16) :
    ToneGene where
  toneInTx := false
  toneGenINF := false
  mToneList := []
  cadNow := none
  freq1 := 0
  freq2 := 0
  yInit := yInit
  aTbl := aTbl
  dtmfdec := dtmfdec
  toneBuf := toneBuf

def empty (gen : ToneGene) : Bool := gen.cadNow.isNone && gen.mToneList.isEmpty

/-- `updateFrame` takes the first cadence off the list. A frequency that does not fit
in a `short` is cut off when it is stored. -/
def loadCadence (gen : ToneGene) (first : Cadence) (rest : List Cadence) : ToneGene :=
  let gen := { gen with
    cadNow := some first
    mToneList := if gen.toneGenINF then rest ++ [first] else rest }
  let gen :=
    if UInt32.ofInt gen.freq1.toInt ≠ first.freq1 ∨ UInt32.ofInt gen.freq2.toInt ≠ first.freq2 then
      { gen with
        freq1 := Int16.ofInt first.freq1.toNat
        freq2 := Int16.ofInt first.freq2.toNat
        dtmfdec := { gen.dtmfdec with reinit := 1 } }
    else gen
  let ceff1 := tables.getToneCeff gen.freq1.toInt
  let ceff2 := tables.getToneCeff gen.freq2.toInt
  { gen with yInit := (ceff1.1, ceff2.1), aTbl := (ceff1.2, ceff2.2) }

/-- `if (refresh)`: the next ten milliseconds of the cadence, and what was done for
them. -/
def refreshTone (gen : ToneGene) (cadNow : Cadence) (value : Nat) : Part × ToneGene :=
  let made : Part × Cadence × ToneGene :=
    if cadNow.timeOn > 0 then
      let generated := genTone gen.dtmfdec gen.yInit gen.aTbl value 160
      (.tone, { cadNow with timeOn := cadNow.timeOn - 10 },
        { gen with
          dtmfdec := generated.inst
          toneBuf := generated.signal ++ gen.toneBuf.drop generated.signal.length })
    else if cadNow.timeOff > 0 then
      (.silence, { cadNow with timeOff := cadNow.timeOff - 10 },
        { gen with toneBuf := List.replicate tables.eventSamples 0 })
    else (.stale, cadNow, gen)
  let cadNow := made.2.1
  (made.1, { made.2.2 with
    cadNow := if cadNow.timeOn ≤ 0 ∧ cadNow.timeOff ≤ 0 then none else some cadNow })

/-- `updateFrame` from where there is a cadence, whose frequencies may have been loaded in
the same call. -/
def playCadence (gen : ToneGene) (cadNow : Cadence) (loads : Option (UInt32 × UInt32))
    (call : FrameCall) : FrameOutcome :=
  if call.refresh then
    let made := refreshTone tables gen cadNow call.value.toNat
    ⟨noError, some ⟨⟨loads, made.1⟩, made.2.toneBuf⟩, made.2⟩
  else if gen.toneInTx then ⟨noError, some ⟨⟨loads, .stale⟩, gen.toneBuf⟩, gen⟩
  else ⟨noError, none, gen⟩

/-- The test of the arguments. `nSamples * sizeof(short)` is computed in 32 bits. -/
def badCall (call : FrameCall) : Bool :=
  call.frameNull || (call.nSamples.toNat * 2 % 4294967296 < 2 * tables.eventSamples : Bool) ||
    call.value > 36

def updateFrame (gen : ToneGene) (call : FrameCall) : FrameOutcome :=
  if badCall tables call then ⟨badValue, none, gen⟩
  else
    match gen.cadNow, gen.mToneList with
    | some cadNow, _ => playCadence tables gen cadNow none call
    | none, [] => ⟨noError, none, gen⟩
    | none, first :: rest =>
        playCadence tables (loadCadence tables gen first rest) first
          (some (first.freq1, first.freq2)) call

/-- A sequence of calls: their outcomes. -/
def updateFrames : ToneGene → List FrameCall → List FrameOutcome
  | _, [] => []
  | gen, call :: calls =>
      let outcome := updateFrame tables gen call
      outcome :: updateFrames outcome.gen calls

/-- The generator that a sequence of calls leaves. -/
def afterFrames (gen : ToneGene) (calls : List FrameCall) : ToneGene :=
  calls.foldl (fun gen call => (updateFrame tables gen call).gen) gen

end ToneGene

namespace Cadence

/-- The number of frames that cover a time: tenths, rounded up. -/
def frames (time : Int) : Nat := ((time + 9) / 10).toNat

theorem frames_of_nonpos {time : Int} (htime : time ≤ 0) : frames time = 0 := by
  rw [frames]
  omega

theorem frames_of_pos {time : Int} (htime : 0 < time) : frames time = frames (time - 10) + 1 := by
  rw [frames, frames]
  omega

/-- A tone and then silence, for the times of the cadence. -/
def parts (cad : Cadence) : List Part :=
  List.replicate (frames cad.timeOn) .tone ++ List.replicate (frames cad.timeOff) .silence

/-- Ten milliseconds after each other, the first after a load. -/
def opened (loads : Option (UInt32 × UInt32)) : List Part → List Sound
  | [] => []
  | part :: parts => ⟨loads, part⟩ :: parts.map fun part => ⟨none, part⟩

/-- The frames of a cadence, at its frequencies. -/
def score (cad : Cadence) : List Sound := opened (some (cad.freq1, cad.freq2)) cad.parts

/-- The frames of a cadence that has been loaded before. -/
def remaining (cad : Cadence) : List Sound := cad.parts.map fun part => ⟨none, part⟩

/-- A cadence for which nothing is generated. -/
def Void (cad : Cadence) : Prop := cad.timeOn ≤ 0 ∧ cad.timeOff ≤ 0

instance (cad : Cadence) : Decidable cad.Void := inferInstanceAs (Decidable (_ ∧ _))

/-- What is heard when a cadence has been taken off the list. -/
def sounds (cad : Cadence) : List Sound :=
  if cad.Void then [⟨some (cad.freq1, cad.freq2), .stale⟩] else cad.score

theorem parts_of_timeOn {cad : Cadence} (hon : 0 < cad.timeOn) :
    cad.parts = .tone :: { cad with timeOn := cad.timeOn - 10 }.parts := by
  rw [parts, frames_of_pos hon, List.replicate_succ, List.cons_append]
  rfl

theorem parts_of_timeOff {cad : Cadence} (hon : cad.timeOn ≤ 0) (hoff : 0 < cad.timeOff) :
    cad.parts = .silence :: { cad with timeOff := cad.timeOff - 10 }.parts := by
  rw [parts, frames_of_nonpos hon, frames_of_pos hoff, parts, frames_of_nonpos hon]
  rfl

theorem parts_eq_nil_iff {cad : Cadence} : cad.parts = [] ↔ cad.Void := by
  constructor
  · intro hnil
    by_contra hvoid
    by_cases hon : 0 < cad.timeOn
    · rw [parts_of_timeOn hon] at hnil
      exact List.cons_ne_nil _ _ hnil
    · have hoff : 0 < cad.timeOff := by
        rw [Void] at hvoid
        omega
      rw [parts_of_timeOff (not_lt.mp hon) hoff] at hnil
      exact List.cons_ne_nil _ _ hnil
  · intro hvoid
    rw [parts, frames_of_nonpos hvoid.1, frames_of_nonpos hvoid.2]
    rfl

theorem opened_eq_nil_iff {loads : Option (UInt32 × UInt32)} {parts : List Part} :
    opened loads parts = [] ↔ parts = [] := by
  cases parts <;> simp [opened]

theorem score_eq_nil_iff {cad : Cadence} : cad.score = [] ↔ cad.Void :=
  opened_eq_nil_iff.trans parts_eq_nil_iff

/-- Every cadence is heard for ten milliseconds at least, and loads its frequencies before
them. -/
theorem sounds_cons (cad : Cadence) :
    ∃ part rest, cad.sounds = ⟨some (cad.freq1, cad.freq2), part⟩ :: rest := by
  unfold sounds
  split
  · exact ⟨_, _, rfl⟩
  · rename_i hleft
    obtain ⟨part, parts, hparts⟩ := List.exists_cons_of_ne_nil (parts_eq_nil_iff.not.mpr hleft)
    exact ⟨part, _, by rw [score, hparts, opened]⟩

theorem sounds_ne_nil (cad : Cadence) : cad.sounds ≠ [] := by
  obtain ⟨part, rest, hsounds⟩ := cad.sounds_cons
  rw [hsounds]
  exact List.cons_ne_nil _ _

/-- The cadence as a track of the abstract player. -/
def track (cad : Cadence) : Track Sound := ⟨cad.sounds, cad.sounds_ne_nil⟩

end Cadence

namespace ToneGene

variable {tables : ToneTables}

/-- The abstract player of a generator: what is left of the copy, and the list. -/
def player (gen : ToneGene) : Player Sound where
  endless := gen.toneGenINF
  current := gen.cadNow.elim [] Cadence.remaining
  queue := gen.mToneList.map Cadence.track

/-- The voice of a generator. -/
def voice (gen : ToneGene) : Voice := ⟨gen.freq1, gen.freq2, gen.dtmfdec, gen.toneBuf⟩

/-- The coefficients are those of the frequencies. -/
structure Tuned (tables : ToneTables) (gen : ToneGene) : Prop where
  yInit : gen.yInit =
    ((tables.getToneCeff gen.freq1.toInt).1, (tables.getToneCeff gen.freq2.toInt).1)
  aTbl : gen.aTbl =
    ((tables.getToneCeff gen.freq1.toInt).2, (tables.getToneCeff gen.freq2.toInt).2)

/-- A copy that is kept has something left, and the generator is tuned to it. -/
def Counting (tables : ToneTables) (gen : ToneGene) : Prop :=
  ∀ cad, gen.cadNow = some cad → ¬ cad.Void ∧ Tuned tables gen

theorem counting_of_idle {gen : ToneGene} (hidle : gen.cadNow = none) : Counting tables gen := by
  intro cad hcad
  rw [hidle] at hcad
  cases hcad

/-- Loading a cadence tunes the generator, as the voice does. -/
structure Loaded (tables : ToneTables) (gen loaded : ToneGene) (first : Cadence)
    (rest : List Cadence) : Prop where
  tuned : Tuned tables loaded
  voice : loaded.voice = gen.voice.load (some (first.freq1, first.freq2))
  toneGenINF : loaded.toneGenINF = gen.toneGenINF
  mToneList : loaded.mToneList = if gen.toneGenINF then rest ++ [first] else rest

theorem loadCadence_loaded (gen : ToneGene) (first : Cadence) (rest : List Cadence) :
    Loaded tables gen (loadCadence tables gen first rest) first rest := by
  unfold loadCadence
  dsimp only
  split
  · rename_i hdiffers
    have hvoice : Differs gen.voice.freq1 gen.voice.freq2 (first.freq1, first.freq2) := hdiffers
    refine ⟨⟨rfl, rfl⟩, ?_, rfl, rfl⟩
    simp only [Voice.load, if_pos hvoice]
    rfl
  · rename_i hsame
    have hvoice : ¬ Differs gen.voice.freq1 gen.voice.freq2 (first.freq1, first.freq2) := hsame
    refine ⟨⟨rfl, rfl⟩, ?_, rfl, rfl⟩
    exact (Voice.load_of_not_differs hvoice).symm

/-- What ten milliseconds of a cadence leave of it. -/
structure Refreshed (tables : ToneTables) (gen : ToneGene) (cad : Cadence) (value : Nat)
    (made : Part × ToneGene) : Prop where
  parts : made.1 :: made.2.player.current.map Sound.part = if cad.Void then [.stale] else cad.parts
  voice : made.2.voice = gen.voice.fill tables value made.1
  toneGenINF : made.2.toneGenINF = gen.toneGenINF
  mToneList : made.2.mToneList = gen.mToneList
  counting : Counting tables made.2

/-- The copy that is kept, if there is one. -/
def keep (gen : ToneGene) (cad : Cadence) : ToneGene :=
  { gen with cadNow := if cad.timeOn ≤ 0 ∧ cad.timeOff ≤ 0 then none else some cad }

theorem keep_current (gen : ToneGene) (cad : Cadence) :
    (keep gen cad).player.current = cad.remaining := by
  simp only [keep, player]
  split
  · rename_i hvoid
    rw [Cadence.remaining, Cadence.parts_eq_nil_iff.mpr hvoid]
    rfl
  · rfl

theorem keep_parts (gen : ToneGene) (cad : Cadence) :
    (keep gen cad).player.current.map Sound.part = cad.parts := by
  rw [keep_current, Cadence.remaining, List.map_map]
  exact List.map_id _

theorem keep_counting {gen : ToneGene} {cad : Cadence} (htuned : Tuned tables gen) :
    Counting tables (keep gen cad) := by
  intro kept hkept
  simp only [keep] at hkept
  split at hkept
  · cases hkept
  · rename_i hleft
    obtain rfl := Option.some.inj hkept
    exact ⟨hleft, htuned.yInit, htuned.aTbl⟩

theorem refreshTone_refreshed {gen : ToneGene} (htuned : Tuned tables gen) (cad : Cadence)
    {value : Nat} (hvalue : value ≤ 36) :
    Refreshed tables gen cad value (refreshTone tables gen cad value) := by
  unfold refreshTone
  dsimp only
  by_cases hon : cad.timeOn > 0
  · -- ten milliseconds of tone
    rw [if_pos hon]
    have hleft : ¬ cad.Void := fun hvoid => absurd hon (not_lt.mpr hvoid.1)
    have hgenerated : gen.voice.generate tables value =
        genTone gen.dtmfdec gen.yInit gen.aTbl value 160 := by
      rw [htuned.yInit, htuned.aTbl]
      rfl
    refine ⟨?_, ?_, rfl, rfl, keep_counting ⟨htuned.yInit, htuned.aTbl⟩⟩
    · rw [if_neg hleft, Cadence.parts_of_timeOn hon]
      exact congrArg _ (keep_parts _ _)
    · rw [Voice.fill, hgenerated]
      simp only [voice, genTone_length gen.dtmfdec gen.yInit gen.aTbl hvalue 160]
  · rw [if_neg hon]
    by_cases hoff : cad.timeOff > 0
    · -- ten milliseconds of silence
      rw [if_pos hoff]
      have hleft : ¬ cad.Void := fun hvoid => absurd hoff (not_lt.mpr hvoid.2)
      refine ⟨?_, rfl, rfl, rfl, keep_counting ⟨htuned.yInit, htuned.aTbl⟩⟩
      rw [if_neg hleft, Cadence.parts_of_timeOff (not_lt.mp hon) hoff]
      exact congrArg _ (keep_parts _ _)
    · -- nothing is generated
      rw [if_neg hoff]
      have hvoid : cad.Void := ⟨not_lt.mp hon, not_lt.mp hoff⟩
      refine ⟨?_, rfl, rfl, rfl, keep_counting ⟨htuned.yInit, htuned.aTbl⟩⟩
      rw [if_pos hvoid]
      refine congrArg _ ((keep_parts _ _).trans ?_)
      exact Cadence.parts_eq_nil_iff.mpr hvoid

/-- A call for the local speaker that passes the test of the arguments. -/
def Refreshing (tables : ToneTables) (call : FrameCall) : Prop :=
  call.refresh = true ∧ badCall tables call = false

instance (tables : ToneTables) : DecidablePred (Refreshing tables) :=
  fun _ => inferInstanceAs (Decidable (_ ∧ _))

theorem Refreshing.not_bad {call : FrameCall} (hcall : Refreshing tables call) :
    ¬ badCall tables call = true := by
  rw [hcall.2]
  exact Bool.false_ne_true

theorem Refreshing.value_le {call : FrameCall} (hcall : Refreshing tables call) :
    call.value.toNat ≤ 36 := by
  have hgood := hcall.2
  simp only [badCall, Bool.or_eq_false_iff, decide_eq_false_iff_not, not_lt] at hgood
  exact UInt16.le_iff_toNat_le.mp (UInt16.not_lt.mp hgood.2)

/-- What a refreshing call does: a turn of the player, heard through the voice. -/
structure Stepped (tables : ToneTables) (gen : ToneGene) (call : FrameCall)
    (outcome : FrameOutcome) : Prop where
  status : outcome.status = noError
  frame : outcome.frame = gen.player.next.1.map fun sound =>
    ⟨sound, (gen.voice.play tables sound call.value.toNat).toneBuf⟩
  voice : outcome.gen.voice = gen.player.next.1.elim gen.voice fun sound =>
    gen.voice.play tables sound call.value.toNat
  player : outcome.gen.player = gen.player.next.2
  counting : Counting tables outcome.gen

/-- The copy that is kept by a call is what is left of its cadence. -/
theorem current_eq_map (gen : ToneGene) :
    gen.player.current = (gen.player.current.map Sound.part).map fun part => ⟨none, part⟩ := by
  cases hcad : gen.cadNow with
  | none => simp [player, hcad]
  | some cad => simp [player, hcad, Cadence.remaining]

/-- The call that plays ten milliseconds of a cadence. -/
theorem playCadence_stepped {gen loaded : ToneGene} {cad : Cadence}
    {loads : Option (UInt32 × UInt32)} {call : FrameCall} (hcall : Refreshing tables call)
    (htuned : Tuned tables loaded) (hvoice : loaded.voice = gen.voice.load loads) {part : Part}
    {rest : List Part} (hparts : (if cad.Void then [.stale] else cad.parts) = part :: rest)
    (hnext : gen.player.next =
      (some ⟨loads, part⟩,
        { loaded.player with current := rest.map fun part => ⟨none, part⟩ })) :
    Stepped tables gen call (playCadence tables loaded cad loads call) := by
  have hmade := refreshTone_refreshed htuned cad hcall.value_le
  unfold playCadence
  rw [if_pos hcall.1]
  dsimp only
  generalize refreshTone tables loaded cad call.value.toNat = made at hmade
  obtain ⟨hhead, hcurrent⟩ := List.cons_eq_cons.mp (hmade.parts.trans hparts)
  have hsame : made.2.voice = gen.voice.play tables ⟨loads, part⟩ call.value.toNat := by
    rw [hmade.voice, hvoice, hhead]
    rfl
  refine ⟨rfl, ?_, ?_, ?_, hmade.counting⟩
  · rw [hnext, Option.map_some, ← hsame, hhead]
    rfl
  · rw [hnext, Option.elim_some, hsame]
  · rw [hnext, ← hcurrent, ← current_eq_map]
    simp only [player, hmade.toneGenINF, hmade.mToneList]

/-- A refreshing call is a turn of the abstract player. -/
theorem updateFrame_stepped {gen : ToneGene} {call : FrameCall} (hcounting : Counting tables gen)
    (hcall : Refreshing tables call) : Stepped tables gen call (updateFrame tables gen call) := by
  unfold updateFrame
  rw [if_neg hcall.not_bad]
  match hcad : gen.cadNow, hlist : gen.mToneList with
  | some cad, _ =>
      obtain ⟨hleft, htuned⟩ := hcounting cad hcad
      obtain ⟨part, rest, hparts⟩ :=
        List.exists_cons_of_ne_nil (Cadence.parts_eq_nil_iff.not.mpr hleft)
      apply playCadence_stepped hcall htuned rfl ((if_neg hleft).trans hparts)
      have hcurrent : gen.player.current =
          ⟨none, part⟩ :: rest.map fun part => ⟨none, part⟩ := by
        rw [player, hcad, Option.elim_some, Cadence.remaining, hparts, List.map_cons]
      rw [Player.next, hcurrent]
  | none, [] =>
      have hnext : gen.player.next = (none, gen.player) := by
        simp only [Player.next, player, hcad, hlist, Option.elim_none, List.map_nil]
      refine ⟨rfl, ?_, ?_, ?_, hcounting⟩ <;> rw [hnext] <;> rfl
  | none, first :: rest =>
      have hloaded := @loadCadence_loaded tables gen first rest
      by_cases hvoid : first.Void
      · apply playCadence_stepped hcall hloaded.tuned hloaded.voice (if_pos hvoid)
        simp only [Player.next, player, hcad, hlist, hloaded.toneGenINF, hloaded.mToneList,
          Option.elim_none, List.map_cons, Cadence.track, Cadence.sounds, if_pos hvoid,
          List.head?_cons, List.tail_cons, List.map_nil]
        split <;> simp [Cadence.track, Cadence.sounds, hvoid]
      · obtain ⟨part, parts, hparts⟩ :=
          List.exists_cons_of_ne_nil (Cadence.parts_eq_nil_iff.not.mpr hvoid)
        apply playCadence_stepped hcall hloaded.tuned hloaded.voice ((if_neg hvoid).trans hparts)
        simp only [Player.next, player, hcad, hlist, hloaded.toneGenINF, hloaded.mToneList,
          Option.elim_none, List.map_cons, Cadence.track, Cadence.sounds, if_neg hvoid,
          Cadence.score, hparts, Cadence.opened, List.head?_cons, List.tail_cons]
        split <;> simp [Cadence.track, Cadence.sounds, hvoid, Cadence.score, hparts,
          Cadence.opened]

/-- `empty` says that the abstract player has stopped. -/
theorem empty_iff (gen : ToneGene) (hcounting : Counting tables gen) :
    gen.empty = true ↔ gen.player.upcoming 0 = none := by
  rw [Player.upcoming_zero_eq_none_iff, empty, Bool.and_eq_true, List.isEmpty_iff,
    Option.isNone_iff_eq_none, player, List.map_eq_nil_iff]
  apply and_congr_left
  intro _
  cases hcad : gen.cadNow with
  | none => simp
  | some cad =>
      have hleft := (hcounting cad hcad).1
      simp only [reduceCtorEq, Option.elim_some, false_iff, Cadence.remaining, List.map_eq_nil_iff]
      exact Cadence.parts_eq_nil_iff.not.mpr hleft

/-- The volumes of a sequence of calls. -/
def volumes (calls : List FrameCall) : List Nat := calls.map fun call => call.value.toNat

theorem volumes_le {calls : List FrameCall} (hcalls : ∀ call ∈ calls, Refreshing tables call) :
    ∀ value ∈ volumes calls, value ≤ 36 := by
  intro value hvalue
  obtain ⟨call, hcall, rfl⟩ := List.mem_map.mp hvalue
  exact (hcalls call hcall).value_le

/-- What a sequence of refreshing calls does. -/
structure Ran (tables : ToneTables) (gen : ToneGene) (calls : List FrameCall) : Prop where
  status : ∀ outcome ∈ updateFrames tables gen calls, outcome.status = noError
  frames : (updateFrames tables gen calls).map FrameOutcome.frame =
    gen.voice.perform tables gen.player.upcoming (volumes calls)
  counting : Counting tables (afterFrames tables gen calls)
  player : (afterFrames tables gen calls).player = gen.player.after calls.length

theorem updateFrames_ran {gen : ToneGene} (hcounting : Counting tables gen)
    {calls : List FrameCall} (hcalls : ∀ call ∈ calls, Refreshing tables call) :
    Ran tables gen calls := by
  induction calls generalizing gen with
  | nil => exact ⟨fun _ hmem => absurd hmem List.not_mem_nil, rfl, hcounting, rfl⟩
  | cons call calls ih =>
      have hstep := updateFrame_stepped hcounting (hcalls call List.mem_cons_self)
      have hrest := ih hstep.counting fun later hlater =>
        hcalls later (List.mem_cons_of_mem call hlater)
      have hupcoming : (updateFrame tables gen call).gen.player.upcoming =
          fun n => gen.player.upcoming (n + 1) := by
        funext n
        rw [hstep.player, Player.next_upcoming]
      have hvolumes : volumes (call :: calls) = call.value.toNat :: volumes calls := rfl
      refine ⟨List.forall_mem_cons.mpr ⟨hstep.status, hrest.status⟩, ?_, hrest.counting, ?_⟩
      · rw [updateFrames, List.map_cons, hrest.frames, hupcoming, hstep.frame, hstep.voice,
          Player.next_fst, hvolumes, Voice.perform_cons]
      · rw [List.length_cons, Player.after, ← hstep.player]
        exact hrest.player

theorem entries_tracks (list : List Cadence) :
    Player.entries (list.map Cadence.track) = list.flatMap Cadence.sounds := by
  rw [Player.entries, List.flatMap_map]
  rfl

theorem flatMap_sounds_eq_nil_iff {list : List Cadence} :
    list.flatMap Cadence.sounds = [] ↔ list = [] := by
  constructor
  · intro hnil
    cases list with
    | nil => rfl
    | cons cad list =>
        rw [List.flatMap_cons, List.append_eq_nil_iff] at hnil
        exact absurd hnil.1 cad.sounds_ne_nil
  · intro hnil
    rw [hnil, List.flatMap_nil]

/-- A generator without a copy plays its list, once or in a circle. -/
theorem upcoming_idle {gen : ToneGene} (hidle : gen.cadNow = none) :
    gen.player.upcoming = playing gen.toneGenINF (gen.mToneList.flatMap Cadence.sounds) := by
  funext n
  rw [Player.upcoming_loaded (by rw [player, hidle, Option.elim_none]), player, entries_tracks]

/-- It has nothing more to play exactly when `empty` says so. -/
theorem empty_afterFrames_iff {gen : ToneGene} (hidle : gen.cadNow = none) {calls : List FrameCall}
    (hcalls : ∀ call ∈ calls, Refreshing tables call) :
    (afterFrames tables gen calls).empty = true ↔
      playing gen.toneGenINF (gen.mToneList.flatMap Cadence.sounds) calls.length = none := by
  have hran := updateFrames_ran (counting_of_idle hidle) hcalls
  rw [empty_iff _ hran.counting, hran.player, Player.after_upcoming, Nat.zero_add,
    upcoming_idle hidle]

end ToneGene

/-- A cadence with times that are not both zero, at frequencies that a `short`
holds. -/
structure Cadence.Playable (cad : Cadence) : Prop where
  timeOn : 0 ≤ cad.timeOn
  timeOff : 0 ≤ cad.timeOff
  times : cad.timeOn ≠ 0 ∨ cad.timeOff ≠ 0
  freq1 : cad.freq1 < 32768
  freq2 : cad.freq2 < 32768

instance : DecidablePred Cadence.Playable := fun cad =>
  decidable_of_iff (0 ≤ cad.timeOn ∧ 0 ≤ cad.timeOff ∧ (cad.timeOn ≠ 0 ∨ cad.timeOff ≠ 0) ∧
    cad.freq1 < 32768 ∧ cad.freq2 < 32768)
    ⟨fun ⟨h1, h2, h3, h4, h5⟩ => ⟨h1, h2, h3, h4, h5⟩, fun ⟨h1, h2, h3, h4, h5⟩ =>
      ⟨h1, h2, h3, h4, h5⟩⟩

/-- A `short` holds a frequency below 32768. -/
theorem toInt_short {freq : UInt32} (hfreq : freq < 32768) : (short freq).toInt = freq.toNat := by
  have hlt : freq.toNat < 32768 := hfreq
  rw [short, Int16.toInt_ofInt, Int16.size, Int.bmod_def]
  omega

theorem Cadence.Playable.sounds {cad : Cadence} (hcad : cad.Playable) : cad.sounds = cad.score := by
  have hleft : ¬ cad.Void := by
    obtain ⟨hon, hoff, htimes, -, -⟩ := hcad
    rw [Cadence.Void]
    omega
  rw [Cadence.sounds, if_neg hleft]

namespace ToneGene

/-- A list of cadences, loaded into a generator that holds no copy, is played cadence by
cadence, each with its tone and its silence rounded up to whole frames; once, and
then nothing more, or over and over. The samples are those of the generator's voice, and
the voice is tuned to the very frequencies of each cadence. -/
theorem cadences_played (tables : ToneTables) {gen : ToneGene} (hidle : gen.cadNow = none)
    (hlist : ∀ cad ∈ gen.mToneList, cad.Playable) {calls : List FrameCall}
    (hcalls : ∀ call ∈ calls, Refreshing tables call) :
    (updateFrames tables gen calls).map FrameOutcome.frame =
        gen.voice.perform tables
          (playing gen.toneGenINF (gen.mToneList.flatMap Cadence.score)) (volumes calls) ∧
      (∀ outcome ∈ updateFrames tables gen calls, outcome.status = noError) ∧
      ((afterFrames tables gen calls).empty = true ↔
        gen.mToneList = [] ∨ gen.toneGenINF = false ∧
          (gen.mToneList.flatMap Cadence.score).length ≤ calls.length) ∧
      ∀ cad ∈ gen.mToneList, ∀ voice : Voice,
        (voice.load (some (cad.freq1, cad.freq2))).freq1.toInt = cad.freq1.toNat ∧
          (voice.load (some (cad.freq1, cad.freq2))).freq2.toInt = cad.freq2.toNat := by
  have hsounds : gen.mToneList.flatMap Cadence.sounds = gen.mToneList.flatMap Cadence.score := by
    exact List.flatMap_congr fun cad hcad => (hlist cad hcad).sounds
  have hran : Ran tables gen calls := updateFrames_ran (counting_of_idle hidle) hcalls
  refine ⟨?_, hran.status, ?_, fun cad hcad voice => ?_⟩
  · rw [hran.frames, upcoming_idle hidle, hsounds]
  · rw [empty_afterFrames_iff hidle hcalls, playing_eq_none_iff, flatMap_sounds_eq_nil_iff, hsounds]
  · exact ⟨toInt_short (hlist cad hcad).freq1, toInt_short (hlist cad hcad).freq2⟩

/-- A sample rate of 16 kHz, with the coefficients for 400 Hz, for 450 Hz and for no
tone. -/
def tables16 : ToneTables where
  eventSamples := 160
  getToneCeff freq :=
    if freq = 400 then (2563, 32365) else if freq = 450 then (2880, 32258) else (0, -32768)
  room := le_rfl
  memory := by decide

/-- A generator that has just been made, with two cadences: three frames of two tones
and two of silence, and then two frames of one tone without a pause. -/
def twoCadences (toneGenINF : Bool) : ToneGene :=
  { new (0, 0) (0, 0) ⟨0, (0, 0), (0, 0)⟩ (List.replicate 160 0) with
    toneGenINF := toneGenINF
    mToneList := [⟨400, 450, 25, 15⟩, ⟨400, 0, 20, 0⟩] }

/-- A call for ten milliseconds at a volume of -6 dBm0. -/
def plainCall : FrameCall := ⟨false, 160, 6, true⟩

theorem cadences_played_twice :
    ((updateFrames tables16 (twoCadences true) (List.replicate 14 plainCall)).map
          FrameOutcome.frame =
        (twoCadences true).voice.perform tables16
          (playing true ((twoCadences true).mToneList.flatMap Cadence.score))
          (volumes (List.replicate 14 plainCall)) ∧
      (∀ outcome ∈ updateFrames tables16 (twoCadences true) (List.replicate 14 plainCall),
        outcome.status = noError) ∧
      ((afterFrames tables16 (twoCadences true) (List.replicate 14 plainCall)).empty = true ↔
        (twoCadences true).mToneList = [] ∨ true = false ∧
          ((twoCadences true).mToneList.flatMap Cadence.score).length ≤ 14) ∧
      ∀ cad ∈ (twoCadences true).mToneList, ∀ voice : Voice,
        (voice.load (some (cad.freq1, cad.freq2))).freq1.toInt = cad.freq1.toNat ∧
          (voice.load (some (cad.freq1, cad.freq2))).freq2.toInt = cad.freq2.toNat) ∧
      (twoCadences true).mToneList.flatMap Cadence.score =
        [⟨some (400, 450), .tone⟩, ⟨none, .tone⟩, ⟨none, .tone⟩, ⟨none, .silence⟩,
          ⟨none, .silence⟩, ⟨some (400, 0), .tone⟩, ⟨none, .tone⟩] ∧
      (((updateFrames tables16 (twoCadences true) [plainCall]).map FrameOutcome.frame).map
        (Option.map fun frame => frame.samples.take 3)) = [some [-2317, -4567, -6688]] :=
  ⟨cadences_played tables16 rfl (by decide) (by decide), by decide, by decide +kernel⟩

end ToneGene

end McuProxy.Tone
