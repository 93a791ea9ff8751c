/-
# What frames sound like

A generator is heard as a sequence of frames of ten milliseconds: of tone, of silence,
or of what the buffer still holds. The samples of a tone do not follow from its
frequencies alone. The oscillators run on from frame to frame, and start again only
after a cadence of other frequencies has been loaded. A voice is what is carried from
one frame to the next, and `Voice.perform` gives the samples of a whole sequence.

Two voices are heard alike once they are about to start again, or stand alike. A voice
that is about to start again is also heard like one whose next tone comes after a change
of frequencies, since until then both give silence.
-/

import McuProxy.Tone.GenTone
import Mathlib.Tactic

namespace McuProxy.Tone

/-- `EVENT_SAMPLES`, the length of `toneBuf`, which is room for the samples that
`GenTone` stores; and what `get_tone_ceff` stores in `yInit` and `aTbl` for a
frequency. -/
structure ToneTables where
  eventSamples : Nat
  getToneCeff : Int → Int16 × Int16
  room : 160 ≤ eventSamples
  memory : eventSamples < 2147483648

/-- How ten milliseconds come about: from the oscillators, by clearing the buffer, or by
leaving it as it is. -/
inductive Part
  | tone
  | silence
  | stale
  deriving DecidableEq, Repr

/-- Ten milliseconds, and the frequencies that are loaded right before them, if any
are. -/
structure Sound where
  loads : Option (UInt32 × UInt32)
  part : Part
  deriving DecidableEq, Repr

/-- What is copied into the frame, and how it came about. -/
structure Frame where
  sound : Sound
  samples : List Int16
  deriving DecidableEq, Repr

/-- What is carried from one frame to the next. -/
structure Voice where
  freq1 : Int16
  freq2 : Int16
  dtmfdec : DtmfToneInst
  toneBuf : List Int16
  deriving DecidableEq, Repr

/-- A frequency as it is stored in a `short`. -/
def short (freq : UInt32) : Int16 := Int16.ofInt freq.toNat

/-- A `short` is compared with a `uint32_t` as a number of 32 bits. -/
def Differs (freq1 freq2 : Int16) (freqs : UInt32 × UInt32) : Prop :=
  UInt32.ofInt freq1.toInt ≠ freqs.1 ∨ UInt32.ofInt freq2.toInt ≠ freqs.2

instance (freq1 freq2 : Int16) (freqs : UInt32 × UInt32) :
    Decidable (Differs freq1 freq2 freqs) :=
  inferInstanceAs (Decidable (_ ∨ _))

namespace Voice

variable (tables : ToneTables)

/-- Frequencies that differ from those of the voice start the oscillators again. -/
def load (voice : Voice) : Option (UInt32 × UInt32) → Voice
  | none => voice
  | some freqs =>
      { voice with
        freq1 := short freqs.1
        freq2 := short freqs.2
        dtmfdec :=
          if Differs voice.freq1 voice.freq2 freqs then { voice.dtmfdec with reinit := 1 }
          else voice.dtmfdec }

/-- `GenTone` for ten milliseconds at the frequencies of the voice. -/
def generate (voice : Voice) (value : Nat) : ToneSignal :=
  let ceff1 := tables.getToneCeff voice.freq1.toInt
  let ceff2 := tables.getToneCeff voice.freq2.toInt
  genTone voice.dtmfdec (ceff1.1, ceff2.1) (ceff1.2, ceff2.2) value 160

/-- The buffer for ten milliseconds. Of a longer one, a tone fills the first 160
samples. -/
def fill (voice : Voice) (value : Nat) : Part → Voice
  | .tone =>
      { voice with
        dtmfdec := (generate tables voice value).inst
        toneBuf := (generate tables voice value).signal ++ voice.toneBuf.drop 160 }
  | .silence => { voice with toneBuf := List.replicate tables.eventSamples 0 }
  | .stale => voice

def play (voice : Voice) (sound : Sound) (value : Nat) : Voice :=
  (voice.load sound.loads).fill tables value sound.part

/-- The frames of a sequence at the given volumes. -/
def perform (voice : Voice) (upcoming : Nat → Option Sound) : List Nat → List (Option Frame)
  | [] => []
  | value :: values =>
      match upcoming 0 with
      | none => none :: perform voice (fun n => upcoming (n + 1)) values
      | some sound =>
          let voice := voice.play tables sound value
          some ⟨sound, voice.toneBuf⟩ :: perform voice (fun n => upcoming (n + 1)) values

/-- A voice whose oscillators are about to start again. -/
def restarted : Voice := ⟨0, 0, ⟨1, (0, 0), (0, 0)⟩, []⟩

end Voice

/-- The ten milliseconds of a frame, and how they came about. -/
def Frame.written (frame : Frame) : Sound × List Int16 := (frame.sound, frame.samples.take 160)

namespace Voice

variable {tables : ToneTables}

/-- The oscillators are the same, or are about to start again. -/
def SameDec (first second : DtmfToneInst) : Prop :=
  first = second ∨ first.reinit ≠ 0 ∧ second.reinit ≠ 0

/-- Voices that are heard alike from now on. -/
structure Alike (first second : Voice) : Prop where
  freq1 : first.freq1 = second.freq1
  freq2 : first.freq2 = second.freq2
  dtmfdec : SameDec first.dtmfdec second.dtmfdec

theorem restarting_ne_zero : (1 : Int16) ≠ 0 := by decide

theorem Alike.load {first second : Voice} (halike : Alike first second)
    (loads : Option (UInt32 × UInt32)) : Alike (first.load loads) (second.load loads) := by
  obtain ⟨hfreq1, hfreq2, hdec⟩ := halike
  cases loads with
  | none => exact ⟨hfreq1, hfreq2, hdec⟩
  | some freqs =>
      simp only [Voice.load, hfreq1, hfreq2]
      refine ⟨rfl, rfl, ?_⟩
      split
      · exact Or.inr ⟨restarting_ne_zero, restarting_ne_zero⟩
      · exact hdec

/-- Oscillators that are about to start again are so after a load. -/
theorem load_reinit {voice : Voice} (hpending : voice.dtmfdec.reinit ≠ 0)
    (loads : Option (UInt32 × UInt32)) : (voice.load loads).dtmfdec.reinit ≠ 0 := by
  cases loads with
  | none => exact hpending
  | some freqs =>
      simp only [Voice.load]
      split
      · exact restarting_ne_zero
      · exact hpending

/-- Whatever the frequencies of two voices, a load makes them those of the cadence. -/
theorem alike_of_pending {first second : Voice} (hfirst : first.dtmfdec.reinit ≠ 0)
    (hsecond : second.dtmfdec.reinit ≠ 0) (freqs : UInt32 × UInt32) :
    Alike (first.load (some freqs)) (second.load (some freqs)) :=
  ⟨rfl, rfl, Or.inr ⟨load_reinit hfirst _, load_reinit hsecond _⟩⟩

theorem Alike.generate {first second : Voice} (halike : Alike first second) {value : Nat}
    (hvalue : value ≤ 36) : first.generate tables value = second.generate tables value := by
  obtain ⟨hfreq1, hfreq2, hsame | ⟨hfirst, hsecond⟩⟩ := halike
  · simp only [Voice.generate, hfreq1, hfreq2, hsame]
  · simp only [Voice.generate, hfreq1, hfreq2]
    exact genTone_restart hfirst hsecond _ _ hvalue 160

theorem generate_length (tables : ToneTables) (voice : Voice) {value : Nat} (hvalue : value ≤ 36) :
    (voice.generate tables value).signal.length = 160 :=
  genTone_length _ _ _ hvalue 160

/-- Ten milliseconds that do not leave the buffer as it is. -/
theorem Alike.fill (tables : ToneTables) {first second : Voice} (halike : Alike first second)
    {value : Nat} (hvalue : value ≤ 36) {part : Part} (hpart : part ≠ .stale) :
    (first.fill tables value part).toneBuf.take 160 =
        (second.fill tables value part).toneBuf.take 160 ∧
      Alike (first.fill tables value part) (second.fill tables value part) := by
  obtain ⟨hfreq1, hfreq2, hdec⟩ := id halike
  cases part with
  | tone =>
      have hlength := generate_length tables second hvalue
      simp only [Voice.fill, halike.generate hvalue]
      refine ⟨?_, hfreq1, hfreq2, Or.inl rfl⟩
      rw [List.take_append_of_le_length hlength.ge, List.take_append_of_le_length hlength.ge]
  | silence => exact ⟨rfl, hfreq1, hfreq2, hdec⟩
  | stale => exact absurd rfl hpart

/-- The samples of two voices that are alike once they have loaded the same. -/
theorem play_alike (tables : ToneTables) {first second : Voice} {sound : Sound}
    (halike : Alike (first.load sound.loads) (second.load sound.loads)) {value : Nat}
    (hvalue : value ≤ 36) (hpart : sound.part ≠ .stale) :
    Frame.written ⟨sound, (first.play tables sound value).toneBuf⟩ =
        Frame.written ⟨sound, (second.play tables sound value).toneBuf⟩ ∧
      Alike (first.play tables sound value) (second.play tables sound value) := by
  obtain ⟨hsamples, hafter⟩ := halike.fill tables hvalue hpart
  exact ⟨Prod.ext rfl hsamples, hafter⟩

/-- A sequence that leaves the buffer as it is in no frame. -/
def Fresh (upcoming : Nat → Option Sound) : Prop :=
  ∀ n sound, upcoming n = some sound → sound.part ≠ .stale

theorem Fresh.tail {upcoming : Nat → Option Sound} (hfresh : Fresh upcoming) :
    Fresh fun n => upcoming (n + 1) := fun n => hfresh (n + 1)

/-- What a performance begins with. -/
theorem perform_cons (voice : Voice) (upcoming : Nat → Option Sound) (value : Nat)
    (values : List Nat) :
    voice.perform tables upcoming (value :: values) =
      (upcoming 0).map (fun sound => ⟨sound, (voice.play tables sound value).toneBuf⟩) ::
        ((upcoming 0).elim voice fun sound => voice.play tables sound value).perform tables
          (fun n => upcoming (n + 1)) values := by
  rw [perform]
  cases upcoming 0 <;> rfl

/-- The frames of a performance come about as the sequence says. -/
theorem perform_sounds (voice : Voice) (upcoming : Nat → Option Sound) {values : List Nat} {n : Nat}
    (hn : n < values.length) :
    ((voice.perform tables upcoming values).map (Option.map Frame.sound))[n]? =
      some (upcoming n) := by
  induction values generalizing voice upcoming n with
  | nil => exact absurd hn (Nat.not_lt_zero n)
  | cons value values ih =>
      rw [perform_cons, List.map_cons]
      cases n with
      | zero =>
          rw [List.getElem?_cons_zero, Option.map_map]
          cases upcoming 0 <;> rfl
      | succ n =>
          rw [List.getElem?_cons_succ]
          exact ih _ (fun n => upcoming (n + 1)) (Nat.lt_of_succ_lt_succ hn)

/-- Voices that are alike perform every sequence alike. -/
theorem Alike.perform {first second : Voice} (halike : Alike first second)
    {upcoming : Nat → Option Sound} (hfresh : Fresh upcoming) {values : List Nat}
    (hvalues : ∀ value ∈ values, value ≤ 36) :
    (first.perform tables upcoming values).map (Option.map Frame.written) =
      (second.perform tables upcoming values).map (Option.map Frame.written) := by
  induction values generalizing first second upcoming with
  | nil => rfl
  | cons value values ih =>
      obtain ⟨hvalue, hrest⟩ := List.forall_mem_cons.mp hvalues
      rw [perform_cons, perform_cons]
      cases hsound : upcoming 0 with
      | none => exact congrArg (List.cons none) (ih halike hfresh.tail hrest)
      | some sound =>
          obtain ⟨hwritten, hafter⟩ := play_alike tables (halike.load sound.loads)
            hvalue (hfresh 0 sound hsound)
          exact congrArg₂ List.cons (congrArg some hwritten) (ih hafter hfresh.tail hrest)

/-- Two voices that are about to start again, and load frequencies before anything is
heard. -/
theorem perform_pending {first second : Voice} (hfirst : first.dtmfdec.reinit ≠ 0)
    (hsecond : second.dtmfdec.reinit ≠ 0) {upcoming : Nat → Option Sound}
    (hfresh : Fresh upcoming) (hopens : ∀ sound, upcoming 0 = some sound → sound.loads ≠ none)
    (hends : upcoming 0 = none → ∀ n, upcoming n = none) {values : List Nat}
    (hvalues : ∀ value ∈ values, value ≤ 36) :
    (first.perform tables upcoming values).map (Option.map Frame.written) =
      (second.perform tables upcoming values).map (Option.map Frame.written) := by
  cases hzero : upcoming 0 with
  | none =>
      have hnone : upcoming = fun _ => none := funext (hends hzero)
      subst hnone
      clear hvalues hfresh hopens hends hzero
      induction values with
      | nil => rfl
      | cons value values ih => exact congrArg (List.cons none) ih
  | some sound =>
      cases values with
      | nil => rfl
      | cons value values =>
          obtain ⟨hvalue, hrest⟩ := List.forall_mem_cons.mp hvalues
          obtain ⟨freqs, hfreqs⟩ := Option.ne_none_iff_exists'.mp (hopens sound hzero)
          obtain ⟨hwritten, hafter⟩ := play_alike tables
            (show Alike (first.load sound.loads) (second.load sound.loads) from
              hfreqs ▸ alike_of_pending hfirst hsecond freqs) hvalue (hfresh 0 sound hzero)
          rw [perform_cons, perform_cons, hzero]
          exact congrArg₂ List.cons (congrArg some hwritten)
            (hafter.perform hfresh.tail hrest)

/-- Before any tone is heard, frequencies are loaded that differ from these. -/
def ChangesFirst (freq1 freq2 : Int16) (upcoming : Nat → Option Sound) : Prop :=
  ∀ n sound, upcoming n = some sound → sound.part = .tone →
    ∃ m ≤ n, ∃ other freqs, upcoming m = some other ∧ other.loads = some freqs ∧
      Differs freq1 freq2 freqs

/-- A `short` that compares equal to a frequency holds that frequency. -/
theorem eq_short_of_ofInt_eq {held : Int16} {freq : UInt32} (heq : UInt32.ofInt held.toInt = freq) :
    held = short freq := by
  subst heq
  have hlt := held.toInt_lt
  have hle := held.le_toInt
  have hvalue : ((UInt32.ofInt held.toInt).toNat : Int) = held.toInt % 4294967296 := by
    have hnat : (UInt32.ofInt held.toInt).toNat =
        (held.toInt % 4294967296).toNat % 4294967296 := rfl
    omega
  apply Int16.toInt_inj.mp
  rw [short, Int16.toInt_ofInt, hvalue, Int16.size, Int.bmod_def]
  omega

/-- A load of the frequencies of the voice changes nothing. -/
theorem load_of_not_differs {voice : Voice} {freqs : UInt32 × UInt32}
    (hsame : ¬ Differs voice.freq1 voice.freq2 freqs) : voice.load (some freqs) = voice := by
  obtain ⟨hfirst, hsecond⟩ := not_or.mp hsame
  simp only [load, if_neg hsame, ← eq_short_of_ofInt_eq (not_not.mp hfirst),
    ← eq_short_of_ofInt_eq (not_not.mp hsecond)]

theorem load_of_kept {voice : Voice} {loads : Option (UInt32 × UInt32)}
    (hkept : ∀ freqs, loads = some freqs → ¬ Differs voice.freq1 voice.freq2 freqs) :
    voice.load loads = voice := by
  cases loads with
  | none => rfl
  | some freqs => exact load_of_not_differs (hkept freqs rfl)

/-- A load of other frequencies starts the oscillators again. -/
theorem alike_of_differs {first second : Voice} {freqs : UInt32 × UInt32}
    (hfirst : Differs first.freq1 first.freq2 freqs)
    (hsecond : Differs second.freq1 second.freq2 freqs) :
    Alike (first.load (some freqs)) (second.load (some freqs)) := by
  simp only [load, if_pos hfirst, if_pos hsecond]
  exact ⟨rfl, rfl, Or.inr ⟨restarting_ne_zero, restarting_ne_zero⟩⟩

theorem ChangesFirst.tail {freq1 freq2 : Int16} {upcoming : Nat → Option Sound}
    (hchanges : ChangesFirst freq1 freq2 upcoming)
    (hkept : ∀ sound freqs, upcoming 0 = some sound → sound.loads = some freqs →
      ¬ Differs freq1 freq2 freqs) :
    ChangesFirst freq1 freq2 fun n => upcoming (n + 1) := by
  intro n sound hsound htone
  obtain ⟨m, hm, other, freqs, hother, hloads, hdiffers⟩ := hchanges (n + 1) sound hsound htone
  cases m with
  | zero => exact absurd hdiffers (hkept other freqs hother hloads)
  | succ m => exact ⟨m, by omega, other, freqs, hother, hloads, hdiffers⟩

/-- As long as no other frequencies have been loaded, there is no tone. -/
theorem ChangesFirst.silence_of_kept {freq1 freq2 : Int16} {upcoming : Nat → Option Sound}
    (hchanges : ChangesFirst freq1 freq2 upcoming) {sound : Sound}
    (hsound : upcoming 0 = some sound)
    (hpart : sound.part ≠ .stale)
    (hkept : ∀ freqs, sound.loads = some freqs → ¬ Differs freq1 freq2 freqs) :
    sound.part = .silence := by
  cases hkind : sound.part with
  | silence => rfl
  | stale => exact absurd hkind hpart
  | tone =>
      obtain ⟨m, hm, other, freqs, hother, hloads, hdiffer⟩ := hchanges 0 sound hsound hkind
      obtain rfl := Nat.le_zero.mp hm
      obtain rfl := Option.some.inj (hsound.symm.trans hother)
      exact absurd hdiffer (hkept freqs hloads)

/-- Voices of the same frequencies, whatever their oscillators hold, when the
frequencies change before any tone is heard. -/
theorem perform_changesFirst {first second : Voice} (hfreq1 : first.freq1 = second.freq1)
    (hfreq2 : first.freq2 = second.freq2) {upcoming : Nat → Option Sound}
    (hfresh : Fresh upcoming) (hchanges : ChangesFirst first.freq1 first.freq2 upcoming)
    {values : List Nat} (hvalues : ∀ value ∈ values, value ≤ 36) :
    (first.perform tables upcoming values).map (Option.map Frame.written) =
      (second.perform tables upcoming values).map (Option.map Frame.written) := by
  induction values generalizing first second upcoming with
  | nil => rfl
  | cons value values ih =>
      obtain ⟨hvalue, hrest⟩ := List.forall_mem_cons.mp hvalues
      rw [perform_cons, perform_cons]
      cases hsound : upcoming 0 with
      | none =>
          refine congrArg (List.cons none) (ih hfreq1 hfreq2 hfresh.tail ?_ hrest)
          exact hchanges.tail fun other _ hother => by simp [hsound] at hother
      | some sound =>
          have hpart := hfresh 0 sound hsound
          by_cases hdiffers : ∃ freqs, sound.loads = some freqs ∧
              Differs first.freq1 first.freq2 freqs
          · -- both voices start again
            obtain ⟨freqs, hfreqs, hdiffers⟩ := hdiffers
            obtain ⟨hwritten, hafter⟩ := play_alike tables
              (show Alike (first.load sound.loads) (second.load sound.loads) from
                hfreqs ▸ alike_of_differs hdiffers (hfreq1 ▸ hfreq2 ▸ hdiffers)) hvalue hpart
            exact congrArg₂ List.cons (congrArg some hwritten)
              (hafter.perform hfresh.tail hrest)
          · -- a load changes nothing, and there is no tone yet
            have hkept : ∀ freqs, sound.loads = some freqs →
                ¬ Differs first.freq1 first.freq2 freqs :=
              fun freqs hfreqs hdiffer => hdiffers ⟨freqs, hfreqs, hdiffer⟩
            have hload : first.load sound.loads = first ∧ second.load sound.loads = second :=
              ⟨load_of_kept hkept, load_of_kept (hfreq1 ▸ hfreq2 ▸ hkept)⟩
            have htail := hchanges.tail fun other freqs hother hloads =>
              hkept freqs ((Option.some.inj (hsound.symm.trans hother)) ▸ hloads)
            have hsilence := hchanges.silence_of_kept hsound hpart hkept
            simp only [Option.map_some, Option.elim_some, play, hload.1, hload.2, hsilence, fill,
              List.map_cons]
            refine congrArg _ ?_
            exact @ih { first with toneBuf := List.replicate tables.eventSamples 0 }
              { second with toneBuf := List.replicate tables.eventSamples 0 } hfreq1 hfreq2 _
              hfresh.tail htail hrest

/-- A voice that is about to start again, or changes its frequencies before any tone is
heard, is heard like one that has been started again. -/
theorem perform_eq_restarted {voice : Voice} {upcoming : Nat → Option Sound}
    (hfresh : Fresh upcoming) (hopens : ∀ sound, upcoming 0 = some sound → sound.loads ≠ none)
    (hends : upcoming 0 = none → ∀ n, upcoming n = none)
    (hafresh : voice.dtmfdec.reinit ≠ 0 ∨ ChangesFirst voice.freq1 voice.freq2 upcoming)
    {values : List Nat} (hvalues : ∀ value ∈ values, value ≤ 36) :
    (voice.perform tables upcoming values).map (Option.map Frame.written) =
      (restarted.perform tables upcoming values).map (Option.map Frame.written) := by
  rcases hafresh with hpending | hchanges
  · exact perform_pending hpending restarting_ne_zero hfresh hopens hends hvalues
  · let pending : Voice := { voice with dtmfdec := restarted.dtmfdec }
    have hfreq1 : voice.freq1 = pending.freq1 := rfl
    have hfreq2 : voice.freq2 = pending.freq2 := rfl
    have hquiet : (voice.perform tables upcoming values).map (Option.map Frame.written) =
        (pending.perform tables upcoming values).map (Option.map Frame.written) :=
      perform_changesFirst hfreq1 hfreq2 hfresh hchanges hvalues
    have hpending : pending.dtmfdec.reinit ≠ 0 := restarting_ne_zero
    exact hquiet.trans
      (perform_pending hpending restarting_ne_zero hfresh hopens hends hvalues)

end Voice

end McuProxy.Tone
