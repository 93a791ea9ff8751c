/-
# What a script replaces

After a script a generator should play the cadences of the last segment, as often as
they go into its loop time, and nothing of what was set before should be heard. Three
things of the history can be. The flag of endless repetition stays set. A cadence for
which nothing is generated gives a frame of what the buffer held. And the oscillators run
on in the phase that the history left, unless frequencies change before the first tone
or the oscillators are about to start again.

The law is about the samples of every frame. The first two are exactly what it needs of
the list and of the flag, and with the third it holds; the third is not necessary in
every state, since the oscillators may by chance stand where they would start.
-/

import McuProxy.Math.Machine
import McuProxy.Tone.ToneScript

namespace McuProxy.Tone

open McuProxy.Math

namespace ToneGene

/-- The ten milliseconds that a call writes. -/
def written (outcome : FrameOutcome) : Option (Sound × List Int16) :=
  outcome.frame.map Frame.written

/-- After the script a generator plays the frames of its last segment and no others, with
the samples of oscillators that start with them, and `empty` says when it has. -/
def Replaces (tables : ToneTables) (gen : ToneGene) (tones : List Char) : Prop :=
  ∃ next, gen.setToneScript tones = some next ∧
    ∀ calls, (∀ call ∈ calls, Refreshing tables call) →
      (updateFrames tables next calls).map written =
          (Voice.restarted.perform tables
            (playing (decide ((lastSegment tones).loopTime = 0)) (lastSegment tones).score)
            (volumes calls)).map (Option.map Frame.written) ∧
        ((afterFrames tables next calls).empty = true ↔
          (lastSegment tones).loopTime ≠ 0 ∧ (lastSegment tones).score.length ≤ calls.length)

/-- The condition on the list and on the flag. A segment whose 32-bit sums are all zero is
passed over: what is left in place has to be nothing, or to go round like the frames that
the segment asks for. -/
def PlaysAlone (gen : ToneGene) (tones : List Char) : Prop :=
  let last := lastSegment tones
  let left := listLeft gen tones
  ScriptFits tones ∧
    if last.divider = 0 then
      if last.loopTime = 0 then
        left ≠ [] ∧
          left.flatMap Cadence.sounds ++ last.score = last.score ++ left.flatMap Cadence.sounds
      else left = []
    else if last.loopTime = 0 then ∀ cad ∈ last.cadences, ¬ cad.Void
    else
      last.loopTime / last.divider = last.loopTime / last.duration ∧
        (last.loopTime < last.duration ∨
          gen.toneGenINF = false ∧ (∀ segment ∈ segments tones, segment.loopTime ≠ 0) ∧
            ∀ cad ∈ last.cadences, ¬ cad.Void)

/-- Before the first of these cadences that has a tone, or with it, one is heard whose
frequencies differ from the given ones. -/
def RetunesFirst (freq1 freq2 : Int16) : List Cadence → Prop
  | [] => True
  | cad :: rest =>
      ¬ cad.Void ∧ Differs freq1 freq2 (cad.freq1, cad.freq2) ∨
        cad.timeOn ≤ 0 ∧ RetunesFirst freq1 freq2 rest

instance RetunesFirst.decidable (freq1 freq2 : Int16) :
    ∀ cads, Decidable (RetunesFirst freq1 freq2 cads)
  | [] => isTrue trivial
  | _ :: rest =>
      have : Decidable (RetunesFirst freq1 freq2 rest) := RetunesFirst.decidable freq1 freq2 rest
      inferInstanceAs (Decidable (_ ∨ _))

/-- The condition on the oscillators: they are about to start again, or are started again
before the script has a tone. -/
def PlaysAfresh (gen : ToneGene) (tones : List Char) : Prop :=
  gen.dtmfdec.reinit ≠ 0 ∨ RetunesFirst gen.freq1 gen.freq2 (lastSegment tones).rounds

section

variable {tables : ToneTables} {gen : ToneGene} {tones : List Char}

/-- There are calls that pass the test of the arguments. -/
theorem exists_refreshing (tables : ToneTables) : ∃ call, Refreshing tables call := by
  refine ⟨⟨false, UInt32.ofNat tables.eventSamples, 0, true⟩, rfl, ?_⟩
  have hmemory := tables.memory
  have hsamples : (UInt32.ofNat tables.eventSamples).toNat = tables.eventSamples :=
    UInt32.toNat_ofNat_of_lt' (by rw [UInt32.size]; omega)
  simp only [badCall, hsamples, Bool.false_or, Bool.or_eq_false_iff, decide_eq_false_iff_not,
    not_lt]
  refine ⟨?_, by decide⟩
  rw [Nat.mod_eq_of_lt (by omega), Nat.mul_comm]

/-- What a list of cadences sounds like begins with a load. -/
theorem loads_of_score_head {cads : List Cadence} {sound : Sound}
    (hhead : (cads.flatMap Cadence.score)[0]? = some sound) : sound.loads ≠ none := by
  induction cads with
  | nil => cases hhead
  | cons cad cads ih =>
      rw [List.flatMap_cons] at hhead
      cases hparts : cad.parts with
      | nil =>
          rw [Cadence.score, hparts, Cadence.opened, List.nil_append] at hhead
          exact ih hhead
      | cons part parts =>
          rw [Cadence.score, hparts, Cadence.opened, List.cons_append,
            List.getElem?_cons_zero] at hhead
          rw [← Option.some.inj hhead]
          exact Option.some_ne_none _

theorem loads_of_playing_zero {endless : Bool} {cads : List Cadence} {sound : Sound}
    (hsound : playing endless (cads.flatMap Cadence.score) 0 = some sound) :
    sound.loads ≠ none := by
  have hsome : cads.flatMap Cadence.score ≠ [] := by
    intro hnil
    rw [playing_zero_eq_none_iff.mpr hnil] at hsound
    cases hsound
  rw [playing_of_lt endless (List.length_pos_of_ne_nil hsome)] at hsound
  exact loads_of_score_head hsound

/-- A cadence without a tone. -/
theorem parts_of_no_tone {cad : Cadence} (hon : cad.timeOn ≤ 0) :
    ∀ sound ∈ cad.score, sound.part ≠ .tone := by
  intro sound hsound
  have hparts : cad.parts = List.replicate (Cadence.frames cad.timeOff) .silence := by
    rw [Cadence.parts, Cadence.frames_of_nonpos hon, List.replicate_zero, List.nil_append]
  rw [Cadence.score, hparts] at hsound
  cases hframes : Cadence.frames cad.timeOff with
  | zero =>
      rw [hframes] at hsound
      exact absurd hsound List.not_mem_nil
  | succ frames =>
      rw [hframes, List.replicate_succ, Cadence.opened, List.map_replicate] at hsound
      rcases List.mem_cons.mp hsound with rfl | hlater
      · exact Part.noConfusion
      · rw [(List.mem_replicate.mp hlater).2]
        exact Part.noConfusion

/-- Before any tone of the list is heard, other frequencies are loaded. -/
theorem RetunesFirst.exists_load {freq1 freq2 : Int16} {cads : List Cadence}
    (hretunes : RetunesFirst freq1 freq2 cads) {n : Nat} {sound : Sound}
    (hsound : (cads.flatMap Cadence.score)[n]? = some sound)
    (htone : sound.part = .tone) :
    ∃ m ≤ n, ∃ other freqs, (cads.flatMap Cadence.score)[m]? = some other ∧
      other.loads = some freqs ∧ Differs freq1 freq2 freqs := by
  induction cads generalizing n with
  | nil => cases hsound
  | cons cad cads ih =>
      rw [List.flatMap_cons] at hsound ⊢
      rcases hretunes with ⟨hleft, hdiffers⟩ | ⟨hon, hretunes⟩
      · obtain ⟨part, parts, hparts⟩ :=
          List.exists_cons_of_ne_nil (Cadence.parts_eq_nil_iff.not.mpr hleft)
        refine ⟨0, Nat.zero_le n, ⟨some (cad.freq1, cad.freq2), part⟩, _, ?_, rfl, hdiffers⟩
        rw [Cadence.score, hparts, Cadence.opened, List.cons_append, List.getElem?_cons_zero]
      · by_cases hn : n < cad.score.length
        · rw [List.getElem?_append_left hn] at hsound
          exact absurd htone (parts_of_no_tone hon sound (List.mem_of_getElem? hsound))
        · rw [List.getElem?_append_right (not_lt.mp hn)] at hsound
          obtain ⟨m, hm, other, freqs, hother, hloads, hdiffers⟩ := ih hretunes hsound
          refine ⟨m + cad.score.length, by omega, other, freqs, ?_, hloads, hdiffers⟩
          rw [List.getElem?_append_right (Nat.le_add_left _ _), Nat.add_sub_cancel, hother]

theorem RetunesFirst.changesFirst {freq1 freq2 : Int16} {cads : List Cadence}
    (hretunes : RetunesFirst freq1 freq2 cads) (endless : Bool) :
    Voice.ChangesFirst freq1 freq2 (playing endless (cads.flatMap Cadence.score)) := by
  intro n sound hsound htone
  obtain ⟨place, hplace, hget⟩ : ∃ place ≤ n, (cads.flatMap Cadence.score)[place]? =
    some sound := by
    cases endless with
    | false => exact ⟨n, le_rfl, hsound⟩
    | true => exact ⟨_, Nat.mod_le _ _, hsound⟩
  obtain ⟨m, hm, other, freqs, hother, hrest⟩ := hretunes.exists_load hget htone
  refine ⟨m, hm.trans hplace, other, freqs, ?_, hrest⟩
  rw [playing_of_lt endless (List.getElem?_eq_some_iff.mp hother).1, hother]

/-- A generator that is in no cadence writes the frames of its list with the samples of
its voice. -/
theorem updateFrames_idle (hidle : gen.cadNow = none) {calls : List FrameCall}
    (hcalls : ∀ call ∈ calls, Refreshing tables call) :
    (updateFrames tables gen calls).map written =
      (gen.voice.perform tables (playing gen.toneGenINF (gen.mToneList.flatMap Cadence.sounds))
        (volumes calls)).map (Option.map Frame.written) := by
  rw [← upcoming_idle hidle, ← (updateFrames_ran (counting_of_idle hidle) hcalls).frames,
    List.map_map]
  rfl

/-- A script replaces what was there only if the list that it leaves is heard as the frames
that it asks for. -/
theorem Replaces.playing_eq (hidle : gen.cadNow = none) (hvalid : (lastSegment tones).Valid)
    (hreplaces : Replaces tables gen tones) :
    ∃ next, gen.setToneScript tones = some next ∧
      ∀ n, playing next.toneGenINF (next.mToneList.flatMap Cadence.sounds) n =
        playing (decide ((lastSegment tones).loopTime = 0)) (lastSegment tones).score n := by
  obtain ⟨next, hset, hall⟩ := hreplaces
  refine ⟨next, hset, fun n => ?_⟩
  have hidle' : next.cadNow = none := (setToneScript_scripted hvalid hset).cadNow.trans hidle
  obtain ⟨call, hcall⟩ := exists_refreshing tables
  have hcalls : ∀ later ∈ List.replicate (n + 1) call, Refreshing tables later := by
    intro later hlater
    rwa [(List.mem_replicate.mp hlater).2]
  have hlt : n < (volumes (List.replicate (n + 1) call)).length := by
    simp [volumes]
  have hsame := (hall _ hcalls).1
  rw [updateFrames_idle hidle' hcalls] at hsame
  have hsounds := congrArg (List.map (Option.map Prod.fst)) hsame
  simp only [List.map_map, Option.map_comp_map] at hsounds
  have hplaces := congrArg (fun list => list[n]?) hsounds
  exact Option.some.inj ((Voice.perform_sounds _ _ hlt).symm.trans
    (hplaces.trans (Voice.perform_sounds _ _ hlt)))

theorem sound_fresh {cads : List Cadence} (endless : Bool) :
    Voice.Fresh (playing endless (cads.flatMap Cadence.score)) :=
  fun _ _ hsound => part_of_mem_score (mem_of_playing hsound)

/-- The times of a cadence that was scanned are not negative. -/
theorem times_nonneg {segment : Segment} (hmem : segment ∈ segments tones) {cad : Cadence}
    (hcad : cad ∈ segment.cadences) : 0 ≤ cad.timeOn + cad.timeOff := by
  obtain ⟨loop, -, rfl⟩ := List.mem_map.mp hmem
  obtain ⟨caden, -, rfl⟩ := List.mem_map.mp hcad
  exact Int.add_nonneg (Int.natCast_nonneg _) (Int.natCast_nonneg _)

/-- A segment that is passed over takes `2 ^ 32` milliseconds at least. -/
theorem duration_of_divider_zero (hvalid : (lastSegment tones).Valid)
    (hdivider : (lastSegment tones).divider = 0) : 4294967296 ≤ (lastSegment tones).duration := by
  have hmem := lastSegment_mem tones
  rw [Segment.divider, hvalid.registered, List.sum_eq_zero_iff] at hdivider
  obtain ⟨cad, hcad, htime⟩ : ∃ cad ∈ (lastSegment tones).cadences,
    0 < cad.timeOn + cad.timeOff := by
    by_contra hall
    push Not at hall
    have htimes : ∀ time ∈ (lastSegment tones).cadences.map fun cad => cad.timeOn + cad.timeOff,
        time ≤ 0 := by
      intro time htime
      obtain ⟨cad, hcad, rfl⟩ := List.mem_map.mp htime
      exact hall cad hcad
    have hsum := List.sum_le_card_nsmul _ _ htimes
    rw [smul_zero] at hsum
    exact absurd hvalid.duration (not_lt.mpr hsum)
  have hround := hdivider _ (List.mem_map.mpr ⟨cad, hcad, rfl⟩)
  have hsingle : cad.timeOn + cad.timeOff ≤ (lastSegment tones).duration := by
    apply List.single_le_sum
    · intro time htime
      obtain ⟨other, hother, rfl⟩ := List.mem_map.mp htime
      exact times_nonneg hmem hother
    · exact List.mem_map.mpr ⟨cad, hcad, rfl⟩
  omega

/-- A list goes round like these frames if it has a frame, and may change places with
them. -/
theorem goes_round_iff (list : List Cadence) {score : List Sound} (hscore : score ≠ []) :
    (∀ n, playing true (list.flatMap Cadence.sounds) n = playing true score n) ↔
      list ≠ [] ∧ list.flatMap Cadence.sounds ++ score = score ++ list.flatMap Cadence.sounds := by
  by_cases hlist : list = []
  · simp only [hlist, ne_eq, not_true_eq_false, false_and, iff_false]
    intro hsame
    have hnone := hsame 0
    rw [List.flatMap_nil, playing_zero_eq_none_iff.mpr rfl] at hnone
    exact hscore (playing_zero_eq_none_iff.mp hnone.symm)
  · rw [playing_endless_eq_iff (flatMap_sounds_eq_nil_iff.not.mpr hlist) hscore]
    exact (and_iff_right hlist).symm

/-- The list and the flag that a script leaves are heard as the frames that it asks for
exactly when the condition on them holds. -/
theorem playing_iff_playsAlone {next : ToneGene} (hvalid : (lastSegment tones).Valid)
    (hscripted : Scripted gen next tones) :
    (∀ n, playing next.toneGenINF (next.mToneList.flatMap Cadence.sounds) n =
        playing (decide ((lastSegment tones).loopTime = 0)) (lastSegment tones).score n) ↔
      PlaysAlone gen tones := by
  have hmem := lastSegment_mem tones
  have hfits := Segment.loopTime_lt_of_mem hmem
  rw [hscripted.toneGenINF, hscripted.mToneList, hvalid.registered, PlaysAlone,
    and_iff_right hscripted.fits]
  by_cases hloop : (lastSegment tones).loopTime = 0
  · rw [endlessAfter_of_endless hloop, decide_eq_true hloop]
    by_cases hdivider : (lastSegment tones).divider = 0
    · -- the list that is left goes round
      rw [if_pos hdivider, if_pos hdivider, if_pos hloop]
      exact goes_round_iff _ (Segment.score_ne_nil hvalid hloop)
    · rw [if_neg hdivider, if_neg hdivider, if_pos hloop, Segment.score, Segment.rounds,
        Segment.repetitions, Segment.cycle, if_pos hloop, if_pos hloop, List.replicate_one,
        List.flatten_singleton]
      exact endless_iff
  · have hpos : 0 < (lastSegment tones).loopTime := lt_of_le_of_ne hvalid.loopTime (Ne.symm hloop)
    have hnone := Segment.repetitions_eq_zero_iff hvalid hpos
    rw [decide_eq_false hloop, playing_eq_once_iff]
    by_cases hdivider : (lastSegment tones).divider = 0
    · -- nothing is asked for
      have hduration := duration_of_divider_zero hvalid hdivider
      have hscore : (lastSegment tones).score = [] := by
        rw [Segment.score, Segment.rounds, hnone.mpr (by omega)]
        rfl
      rw [if_pos hdivider, if_pos hdivider, if_neg hloop, hscore, flatMap_sounds_eq_nil_iff]
      exact ⟨And.left, fun hleft => ⟨hleft, Or.inl hleft⟩⟩
    · have hsame := Segment.cycle_eq_repetitions_iff hvalid hpos hfits
      rw [if_neg hdivider, if_neg hdivider, if_neg hloop, Segment.score, Segment.rounds,
        rounds_iff hvalid.exists_not_void, flatMap_sounds_eq_nil_iff, hvalid.rounds_eq_nil_iff,
        endlessAfter_eq_false_iff, hsame, ← hnone]
      constructor
      · rintro ⟨⟨hquotient, hempty | hall⟩, hcycle | hend⟩
        · exact ⟨hquotient, .inl hempty⟩
        · exact ⟨hquotient, .inl hempty⟩
        · exact ⟨hquotient, .inl ((hsame.mpr hquotient).symm.trans hcycle)⟩
        · exact ⟨hquotient, .inr ⟨hend.1, hend.2, hall⟩⟩
      · rintro ⟨hquotient, hempty | ⟨hflag, hsegments, hall⟩⟩
        · exact ⟨⟨hquotient, .inl hempty⟩, .inl ((hsame.mpr hquotient).trans hempty)⟩
        · exact ⟨⟨hquotient, .inr hall⟩, .inr ⟨hflag, hsegments⟩⟩

/-- A script whose condition on the list and on the flag holds is played with the samples
of a voice that starts with it, if the oscillators do. -/
theorem PlaysAlone.replaces (hidle : gen.cadNow = none) (hvalid : (lastSegment tones).Valid)
    (halone : PlaysAlone gen tones) (hafresh : PlaysAfresh gen tones) :
    Replaces tables gen tones := by
  obtain ⟨next, hset⟩ := exists_setToneScript gen hvalid halone.1
  have hscripted := setToneScript_scripted hvalid hset
  have hidle' : next.cadNow = none := hscripted.cadNow.trans hidle
  have hplaying := (playing_iff_playsAlone hvalid hscripted).mpr halone
  refine ⟨next, hset, fun calls hcalls => ⟨?_, ?_⟩⟩
  · rw [updateFrames_idle hidle' hcalls, funext hplaying, hscripted.voice]
    apply Voice.perform_eq_restarted (sound_fresh _) ?_ ?_ ?_ (volumes_le hcalls)
    · exact fun sound hsound => loads_of_playing_zero hsound
    · intro hnone n
      exact playing_eq_none_iff.mpr (Or.inl (playing_zero_eq_none_iff.mp hnone))
    · exact hafresh.imp_right fun hretunes => hretunes.changesFirst _
  · rw [empty_afterFrames_iff hidle' hcalls, hplaying, playing_eq_none_iff]
    by_cases hloop : (lastSegment tones).loopTime = 0
    · simp [hloop, Segment.score_ne_nil hvalid hloop]
    · simp only [hloop, decide_false, true_and, ne_eq, not_false_eq_true]
      constructor
      · rintro (hnil | hlength)
        · rw [hnil]
          exact Nat.zero_le _
        · exact hlength
      · exact Or.inr

theorem Replaces.playsAlone (hidle : gen.cadNow = none) (hvalid : (lastSegment tones).Valid)
    (hreplaces : Replaces tables gen tones) : PlaysAlone gen tones := by
  obtain ⟨next, hset, hplaying⟩ := hreplaces.playing_eq hidle hvalid
  exact (playing_iff_playsAlone hvalid (setToneScript_scripted hvalid hset)).mp hplaying

end

end ToneGene

/-- The calls on a generator. -/
inductive ToneCall
  | script (tones : List Char)
  | frame (call : FrameCall)
  deriving DecidableEq

namespace ToneGene

variable (tables : ToneTables)

def toneStep (gen : ToneGene) : ToneCall → Option ToneGene
  | .script tones => gen.setToneScript tones
  | .frame call => some (updateFrame tables gen call).gen

/-- The generator after a history, if every script of it can be read. -/
def runTone (start : ToneGene) (history : List ToneCall) : Option ToneGene :=
  runMachine (toneStep tables) start history

/-- A script that leaves the flag set. -/
def AsksEndless (tones : List Char) : Prop :=
  tones ≠ stopScript ∧ ∃ segment ∈ segments tones, segment.loopTime = 0

/-- Since the last `0000` some script asked for endless repetition. -/
def EndlessSince (history : List ToneCall) : Prop :=
  ∃ before tones after, history = before ++ .script tones :: after ∧ AsksEndless tones ∧
    ToneCall.script stopScript ∉ after

theorem playCadence_toneGenINF (gen : ToneGene) (cad : Cadence)
    (loads : Option (UInt32 × UInt32)) (call : FrameCall) :
    (playCadence tables gen cad loads call).gen.toneGenINF = gen.toneGenINF := by
  unfold playCadence refreshTone
  dsimp only
  split_ifs <;> rfl

/-- No frame changes the flag. -/
theorem updateFrame_toneGenINF (gen : ToneGene) (call : FrameCall) :
    (updateFrame tables gen call).gen.toneGenINF = gen.toneGenINF := by
  unfold updateFrame
  split
  · rfl
  · split
    · exact playCadence_toneGenINF tables gen _ _ call
    · rfl
    · rw [playCadence_toneGenINF, (loadCadence_loaded gen _ _).toneGenINF]

theorem endlessSince_snoc {history : List ToneCall} {call : ToneCall} :
    EndlessSince (history ++ [call]) ↔
      (∃ tones, call = .script tones ∧ AsksEndless tones) ∨
        call ≠ .script stopScript ∧ EndlessSince history := by
  constructor
  · rintro ⟨before, tones, after, hsplit, hasks, hafter⟩
    rcases List.eq_nil_or_concat after with rfl | ⟨after, last, rfl⟩
    · obtain ⟨-, hlast⟩ := List.append_inj' hsplit rfl
      exact .inl ⟨tones, List.singleton_inj.mp hlast, hasks⟩
    · rw [List.concat_eq_append] at hsplit hafter
      rw [← List.cons_append, ← List.append_assoc] at hsplit
      obtain ⟨hhistory, hlast⟩ := List.append_inj' hsplit rfl
      obtain rfl := List.singleton_inj.mp hlast
      rw [List.mem_append, not_or] at hafter
      refine .inr ⟨fun hstop => hafter.2 ?_, before, tones, after, hhistory, hasks, hafter.1⟩
      rw [hstop]
      exact List.mem_singleton_self _
  · rintro (⟨tones, rfl, hasks⟩ | ⟨hcall, before, tones, after, rfl, hasks, hafter⟩)
    · exact ⟨history, tones, [], rfl, hasks, List.not_mem_nil⟩
    · refine ⟨before, tones, after ++ [call], by simp, hasks, ?_⟩
      rw [List.mem_append, not_or, List.mem_singleton]
      exact ⟨hafter, fun hstop => hcall hstop.symm⟩

/-- A script sets the flag or leaves it, or stops the generator. -/
theorem setToneScript_toneGenINF_iff {gen next : ToneGene} {tones : List Char}
    (hset : gen.setToneScript tones = some next) :
    next.toneGenINF = true ↔
      AsksEndless tones ∨ tones ≠ stopScript ∧ gen.toneGenINF = true := by
  unfold setToneScript at hset
  by_cases hstop : tones = stopScript
  · rw [if_pos hstop] at hset
    obtain rfl := Option.some.inj hset
    simp [stopTone, AsksEndless, hstop]
  · rw [if_neg hstop] at hset
    obtain ⟨-, hnext⟩ := Option.ite_none_right_eq_some.mp hset
    obtain rfl := Option.some.inj hnext
    simp [foldl_toneGenINF, AsksEndless, hstop, or_comm]

/-- The flag remembers the scripts since the last `0000`. -/
theorem runTone_toneGenINF_iff {start gen : ToneGene} (hstart : start.toneGenINF = false)
    {history : List ToneCall} (hrun : runTone tables start history = some gen) :
    gen.toneGenINF = true ↔ EndlessSince history := by
  induction history using List.reverseRecOn generalizing gen with
  | nil =>
      obtain rfl := Option.some.inj hrun
      simp [hstart, EndlessSince]
  | append_singleton history call ih =>
      rw [runTone, runMachine_append, Option.bind_eq_some_iff] at hrun
      obtain ⟨mid, hmid, hlast⟩ := hrun
      rw [runMachine_cons, Option.bind_eq_some_iff] at hlast
      obtain ⟨last, hcall, hnil⟩ := hlast
      obtain rfl := Option.some.inj hnil
      rw [endlessSince_snoc, ← ih hmid]
      cases call with
      | frame call =>
          obtain rfl := Option.some.inj hcall
          simp [updateFrame_toneGenINF]
      | script tones =>
          rw [setToneScript_toneGenINF_iff hcall]
          simp

/-- After any history that leaves no copy, a script with a valid last segment replaces
what was there only if the condition on the list and on the flag holds; and where the
oscillators start with it, exactly then. The flag is what the history says of it. -/
theorem script_replaces (tables : ToneTables) {start gen : ToneGene} {history : List ToneCall}
    (hrun : runTone tables start history = some gen) (hidle : gen.cadNow = none)
    {tones : List Char} (hvalid : (lastSegment tones).Valid) :
    (Replaces tables gen tones → PlaysAlone gen tones) ∧
      (PlaysAfresh gen tones → (Replaces tables gen tones ↔ PlaysAlone gen tones)) ∧
      (start.toneGenINF = false → (gen.toneGenINF = true ↔ EndlessSince history)) := by
  have hneeds : Replaces tables gen tones → PlaysAlone gen tones :=
    fun hreplaces => hreplaces.playsAlone hidle hvalid
  refine ⟨hneeds, fun hafresh => ⟨hneeds, ?_⟩, fun hstart => ?_⟩
  · exact fun halone => halone.replaces hidle hvalid hafresh
  · exact runTone_toneGenINF_iff tables hstart hrun

/-- A generator that has just been made. -/
def newGenerator : ToneGene := new (0, 0) (0, 0) ⟨0, (0, 0), (0, 0)⟩ (List.replicate 160 0)

/-- An endless script that is stopped, and a script whose cadence of 25 milliseconds is
played twice. -/
def stoppedHistory : List ToneCall :=
  [.script "0(50/50/400+450)".toList, .script stopScript, .script "60(25/0/400+450)".toList] ++
    List.replicate 6 (.frame plainCall)

/-- Four seconds of a tone at frequencies that were not played before. -/
def ringTone : List Char := "4000(350/350/450+0)".toList

/-- The ring tone replaces what the history left: five rounds, and then nothing. -/
theorem script_replaces_ringTone : ∃ gen,
    runTone tables16 newGenerator stoppedHistory = some gen ∧
      Replaces tables16 gen ringTone ∧ (lastSegment ringTone).repetitions = 5 := by
  have hrun : (runTone tables16 newGenerator stoppedHistory).map (fun gen =>
      (gen.cadNow, gen.toneGenINF, gen.freq1, gen.freq2)) = some (none, false, 400, 450) := by
    decide +kernel
  obtain ⟨gen, hgen, hfields⟩ := Option.map_eq_some_iff.mp hrun
  obtain ⟨hidle, hfields⟩ := Prod.mk.inj hfields
  obtain ⟨hflag, hfields⟩ := Prod.mk.inj hfields
  obtain ⟨hfreq1, hfreq2⟩ := Prod.mk.inj hfields
  have hvalid : (lastSegment ringTone).Valid := by decide +kernel
  have halone : PlaysAlone gen ringTone := by
    rw [PlaysAlone, if_neg (by decide +kernel), if_neg (by decide +kernel), hflag]
    decide +kernel
  have hafresh : PlaysAfresh gen ringTone := by
    rw [PlaysAfresh, hfreq1, hfreq2]
    exact Or.inr (by decide +kernel)
  exact ⟨gen, hgen,
    ((script_replaces tables16 hgen hidle hvalid).2.1 hafresh).mpr halone, by decide +kernel⟩

/-- A busy tone for four seconds. -/
def busyTone : List Char := "4000(350/350/400+450)".toList

/-- The busy tone after a tone that was endless, and was not stopped. -/
theorem endless_flag_survives : ∃ gen,
    runTone tables16 newGenerator [.script "0(50/50/400+450)".toList] = some gen ∧
      gen.cadNow = none ∧ (lastSegment busyTone).Valid ∧ ¬ Replaces tables16 gen busyTone := by
  have hrun : (runTone tables16 newGenerator [.script "0(50/50/400+450)".toList]).map (fun gen =>
      (gen.cadNow, gen.toneGenINF)) = some (none, true) := by
    decide +kernel
  obtain ⟨gen, hgen, hfields⟩ := Option.map_eq_some_iff.mp hrun
  obtain ⟨hidle, hflag⟩ := Prod.mk.inj hfields
  have hvalid : (lastSegment busyTone).Valid := by decide +kernel
  refine ⟨gen, hgen, hidle, hvalid, fun hreplaces => ?_⟩
  have halone := hreplaces.playsAlone hidle hvalid
  rw [PlaysAlone, if_neg (by decide +kernel), if_neg (by decide +kernel), hflag] at halone
  revert halone
  decide +kernel

/-- A new generator whose oscillators hold what the memory held, which the constructor
does not clear. -/
def unclearedGenerator : ToneGene :=
  new (0, 0) (0, 0) ⟨0, (1000, 0), (0, 0)⟩ (List.replicate 160 0)

/-- A script at the frequencies that a new generator has. -/
def zeroTone : List Char := "4000(350/350/0+0)".toList

/-- The list and the flag are right, and the oscillators are not started: the first frame
is that of another phase. -/
theorem phase_survives :
    unclearedGenerator.cadNow = none ∧ (lastSegment zeroTone).Valid ∧
      PlaysAlone unclearedGenerator zeroTone ∧
      ¬ Replaces tables16 unclearedGenerator zeroTone := by
  have hframe : (unclearedGenerator.setToneScript zeroTone).map (fun next =>
      (updateFrames tables16 next [plainCall]).map written) ≠
      some ((Voice.restarted.perform tables16 (playing false (lastSegment zeroTone).score)
        (volumes [plainCall])).map (Option.map Frame.written)) := by
    decide +kernel
  have halone : PlaysAlone unclearedGenerator zeroTone := by
    rw [PlaysAlone, if_neg (by decide +kernel), if_neg (by decide +kernel)]
    decide +kernel
  refine ⟨rfl, by decide +kernel, halone, fun ⟨next, hset, hall⟩ => hframe ?_⟩
  have hcalls : ∀ call ∈ [plainCall], Refreshing tables16 call := by decide
  have hloop : decide ((lastSegment zeroTone).loopTime = 0) = false := by decide +kernel
  rw [hset, Option.map_some, (hall [plainCall] hcalls).1, hloop]

end ToneGene

end McuProxy.Tone
