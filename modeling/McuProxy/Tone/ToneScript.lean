/-
# Tone scripts

A script is a sequence of segments such as `4000(350/350/440+480,0/300/0+0)`: a loop
time, and up to six cadences in parentheses. `setToneScript` reads the segments one
after the other, and each valid one replaces the list of cadences, repeated as often
as its whole duration goes into the loop time. A loop time of zero asks for endless
repetition.

The repetition is not part of the list. It is a flag, which a segment with loop time
zero sets and which no segment takes back; only the script `0000`, which stops the
generator, clears it.

The texts of a segment are scanned into two buffers of 64 and of 256 characters without
a limit, and a script with a longer one has no meaning. The numbers of a script are
taken to fit: `sscanf` stores 64 bits for each of the two times, which have 32. What it
scans is modelled as the numbers that are written.
-/

import McuProxy.Math.Armv7
import McuProxy.Tone.ToneGene

namespace McuProxy.Tone

open McuProxy.Math

/-- `isspace`. -/
def isSpace (c : Char) : Bool := c = ' ' || 9 ≤ c.toNat && c.toNat ≤ 13

/-- The value of a sequence of decimal digits. -/
def digitsValue (digits : List Char) : Int :=
  digits.foldl (fun value c => value * 10 + (c.toNat - 48)) 0

/-- An integer conversion of `sscanf`: white space, a sign and digits; the value and
the text behind it, or a matching failure. -/
def scanInteger (text : List Char) : Option (Int × List Char) :=
  let text := text.dropWhile isSpace
  let negative := text.head? = some '-'
  let text := if text.head? = some '-' ∨ text.head? = some '+' then text.tail else text
  let digits := text.takeWhile Char.isDigit
  if digits = [] then none
  else
    some (if negative then -digitsValue digits else digitsValue digits,
      text.dropWhile Char.isDigit)

/-- A format of integer conversions with the given characters between them: the values
up to the first failure. -/
def scanFields : List Char → List Char → List Int
  | separators, text =>
      match scanInteger text with
      | none => []
      | some (value, rest) =>
          value ::
            match separators, rest with
            | separator :: separators, c :: rest =>
                if c = separator then scanFields separators rest else []
            | _, _ => []

/-- `sscanf(caden, "%lld/%lld/%u+%u", ...)` into variables that hold zero, and from
these into a `Cadence`. -/
def scanCadence (caden : List Char) : Cadence :=
  let fields := (scanFields ['/', '/', '+'] caden).map UInt32.ofInt
  { timeOn := (fields.getD 0 0).toNat
    timeOff := (fields.getD 1 0).toNat
    freq1 := fields.getD 2 0
    freq2 := fields.getD 3 0 }

/-- A segment of a script: its loop time, and every cadence that it lists. -/
structure Segment where
  loopTime : Int
  cadences : List Cadence
  deriving DecidableEq, Repr

/-- What `sscanf(loop, "%[^(](%[^)])", buffer, loopTone)` stores in `buffer`, -/
def scanBuffer (loop : List Char) : List Char := loop.takeWhile (· ≠ '(')

/-- and in `loopTone`, which is empty before. -/
def scanLoopTone (loop : List Char) : List Char :=
  if scanBuffer loop = [] then []
  else (loop.drop ((scanBuffer loop).length + 1)).takeWhile (· ≠ ')')

/-- `char buffer[64]` and `char loopTone[256]` have room for what is stored, with its
terminator. -/
def Fits (loop : List Char) : Prop :=
  (scanBuffer loop).length < 64 ∧ (scanLoopTone loop).length < 256

instance : DecidablePred Fits := fun _ => inferInstanceAs (Decidable (_ ∧ _))

/-- The loop time from `buffer`, and the cadences from `loopTone`. -/
def scanSegment (loop : List Char) : Segment where
  loopTime := signed32 (((scanInteger (scanBuffer loop)).map Prod.fst).getD 0)
  cadences := ((scanLoopTone loop).splitOn ',').map scanCadence

/-- The segments of a script, as `strsep(&cursor, ";")` gives them. -/
def segments (tones : List Char) : List Segment := (tones.splitOn ';').map scanSegment

/-- No segment of the script is stored over the end of a buffer. -/
def ScriptFits (tones : List Char) : Prop := ∀ loop ∈ tones.splitOn ';', Fits loop

instance : DecidablePred ScriptFits := fun tones =>
  inferInstanceAs (Decidable (∀ loop ∈ tones.splitOn ';', Fits loop))

namespace Segment

/-- `_cadences`, which has room for six. -/
def registered (segment : Segment) : List Cadence := segment.cadences.take 6

/-- `_divider`. Each of its summands is a sum of 32 bits. -/
def divider (segment : Segment) : Nat :=
  (segment.registered.map fun cad => (cad.timeOn + cad.timeOff).toNat % 4294967296).sum

/-- `_cycle`: the loop time as a `uint64_t`, divided, in 32 bits. -/
def cycle (segment : Segment) : Nat :=
  if segment.loopTime = 0 then 1
  else (segment.loopTime % 18446744073709551616).toNat / segment.divider % 4294967296

end Segment

namespace ToneGene

/-- The body of the loop over the segments. -/
def registerSegment (gen : ToneGene) (segment : Segment) : ToneGene :=
  let gen := if segment.loopTime = 0 then { gen with toneGenINF := true } else gen
  if segment.divider = 0 then gen
  else { gen with mToneList := (List.replicate segment.cycle segment.registered).flatten }

/-- The script that stops the generator. -/
def stopScript : List Char := "0000".toList

/-- `if (strcmp("0000", tones) == 0)`. -/
def stopTone (gen : ToneGene) : ToneGene :=
  { gen with
    mToneList := []
    cadNow := gen.cadNow.map fun cadNow => { cadNow with timeOn := 50, timeOff := 50 }
    toneGenINF := false }

/-- `setToneScript`, which returns `NO_ERROR` for every script that it can read. -/
def setToneScript (gen : ToneGene) (tones : List Char) : Option ToneGene :=
  if tones = stopScript then some gen.stopTone
  else if ScriptFits tones then some ((segments tones).foldl registerSegment gen)
  else none

end ToneGene

theorem segments_ne_nil (tones : List Char) : segments tones ≠ [] := by
  rw [segments, Ne, List.map_eq_nil_iff]
  exact List.splitOn_ne_nil ';' tones

/-- The segment that is read last. -/
def lastSegment (tones : List Char) : Segment := (segments tones).getLast (segments_ne_nil tones)

theorem lastSegment_mem (tones : List Char) : lastSegment tones ∈ segments tones :=
  List.getLast_mem (segments_ne_nil tones)

namespace Segment

/-- The time that the cadences take together. -/
def duration (segment : Segment) : Int :=
  (segment.cadences.map fun cad => cad.timeOn + cad.timeOff).sum

/-- A loop time, and one to six cadences that take some time. -/
structure Valid (segment : Segment) : Prop where
  loopTime : 0 ≤ segment.loopTime
  cadences : segment.cadences.length ≤ 6
  duration : 0 < segment.duration

instance : DecidablePred Valid := fun segment =>
  decidable_of_iff (0 ≤ segment.loopTime ∧ segment.cadences.length ≤ 6 ∧ 0 < segment.duration)
    ⟨fun ⟨h1, h2, h3⟩ => ⟨h1, h2, h3⟩, fun ⟨h1, h2, h3⟩ => ⟨h1, h2, h3⟩⟩

/-- How often the cadences go into the loop time; for endless repetition, once. -/
def repetitions (segment : Segment) : Nat :=
  if segment.loopTime = 0 then 1 else (segment.loopTime / segment.duration).toNat

/-- The cadences of all repetitions. -/
def rounds (segment : Segment) : List Cadence :=
  (List.replicate segment.repetitions segment.cadences).flatten

/-- The frames of all repetitions. -/
def score (segment : Segment) : List Sound := segment.rounds.flatMap Cadence.score

end Segment

namespace ToneGene

/-- The list that the last segment of a script finds in place: that of the last one before
it which is not passed over, or the one from before the script. -/
def listLeft (gen : ToneGene) (tones : List Char) : List Cadence :=
  ((segments tones).dropLast.filter fun segment => segment.divider ≠ 0).getLast?.elim
    gen.mToneList fun segment => (List.replicate segment.cycle segment.registered).flatten

/-- The flag after a script. -/
def endlessAfter (gen : ToneGene) (tones : List Char) : Bool :=
  gen.toneGenINF || (segments tones).any fun segment => segment.loopTime = 0

section

variable {gen : ToneGene} {tones : List Char}

theorem registerSegment_toneGenINF (gen : ToneGene) (segment : Segment) :
    (gen.registerSegment segment).toneGenINF =
      (gen.toneGenINF || decide (segment.loopTime = 0)) := by
  unfold registerSegment
  by_cases hloop : segment.loopTime = 0
  · simp only [hloop, if_true, decide_true, Bool.or_true]
    split <;> rfl
  · simp only [hloop, if_false, decide_false, Bool.or_false]
    split <;> rfl

theorem registerSegment_mToneList (gen : ToneGene) (segment : Segment) :
    (gen.registerSegment segment).mToneList =
      if segment.divider = 0 then gen.mToneList
      else (List.replicate segment.cycle segment.registered).flatten := by
  unfold registerSegment
  dsimp only
  split <;> split <;> rfl

theorem foldl_mToneList (gen : ToneGene) (list : List Segment) :
    (list.foldl registerSegment gen).mToneList =
      (list.filter fun segment => segment.divider ≠ 0).getLast?.elim gen.mToneList
        fun segment => (List.replicate segment.cycle segment.registered).flatten := by
  induction list using List.reverseRecOn with
  | nil => rfl
  | append_singleton list segment ih =>
      rw [List.foldl_append, List.foldl_cons, List.foldl_nil, registerSegment_mToneList,
        List.filter_append]
      by_cases hdivider : segment.divider = 0
      · rw [if_pos hdivider, ih, List.filter_cons_of_neg (by simpa using hdivider),
          List.filter_nil, List.append_nil]
      · rw [if_neg hdivider, List.filter_cons_of_pos (by simpa using hdivider), List.filter_nil,
          List.getLast?_concat]
        rfl

theorem foldl_toneGenINF (gen : ToneGene) (list : List Segment) :
    (list.foldl registerSegment gen).toneGenINF =
      (gen.toneGenINF || list.any fun segment => segment.loopTime = 0) := by
  induction list generalizing gen with
  | nil => rw [List.foldl_nil, List.any_nil, Bool.or_false]
  | cons segment list ih =>
      rw [List.foldl_cons, ih, registerSegment_toneGenINF, List.any_cons, Bool.or_assoc]

theorem endlessAfter_eq_false_iff :
    endlessAfter gen tones = false ↔
      gen.toneGenINF = false ∧ ∀ segment ∈ segments tones, segment.loopTime ≠ 0 := by
  rw [endlessAfter, Bool.or_eq_false_iff, List.any_eq_false]
  simp only [decide_eq_true_eq, ne_eq]

theorem endlessAfter_of_endless (hloop : (lastSegment tones).loopTime = 0) :
    endlessAfter gen tones = true := by
  rw [endlessAfter, Bool.or_eq_true, List.any_eq_true]
  exact .inr ⟨_, lastSegment_mem tones, decide_eq_true hloop⟩

/-- A segment leaves the copy and the voice alone. -/
theorem registerSegment_kept (gen : ToneGene) (segment : Segment) :
    (gen.registerSegment segment).cadNow = gen.cadNow ∧
      (gen.registerSegment segment).voice = gen.voice := by
  unfold registerSegment
  dsimp only
  split <;> split <;> exact ⟨rfl, rfl⟩

theorem foldl_kept (gen : ToneGene) (list : List Segment) :
    (list.foldl registerSegment gen).cadNow = gen.cadNow ∧
      (list.foldl registerSegment gen).voice = gen.voice := by
  induction list generalizing gen with
  | nil => exact ⟨rfl, rfl⟩
  | cons segment list ih =>
      obtain ⟨hcadNow, hvoice⟩ := registerSegment_kept gen segment
      exact ⟨(ih _).1.trans hcadNow, (ih _).2.trans hvoice⟩

/-- A script with a valid last segment is not the one that stops the generator. -/
theorem ne_stop_of_valid (hvalid : (lastSegment tones).Valid) : tones ≠ stopScript := by
  rintro rfl
  revert hvalid
  decide

/-- What a script with a valid last segment does. -/
structure Scripted (gen next : ToneGene) (tones : List Char) : Prop where
  fits : ScriptFits tones
  cadNow : next.cadNow = gen.cadNow
  voice : next.voice = gen.voice
  toneGenINF : next.toneGenINF = endlessAfter gen tones
  mToneList : next.mToneList =
    if (lastSegment tones).divider = 0 then listLeft gen tones
    else (List.replicate (lastSegment tones).cycle (lastSegment tones).registered).flatten

theorem setToneScript_scripted {next : ToneGene} (hvalid : (lastSegment tones).Valid)
    (hset : gen.setToneScript tones = some next) : Scripted gen next tones := by
  rw [setToneScript, if_neg (ne_stop_of_valid hvalid)] at hset
  obtain ⟨hfits, hnext⟩ := Option.ite_none_right_eq_some.mp hset
  obtain rfl := Option.some.inj hnext
  obtain ⟨hcadNow, hvoice⟩ := foldl_kept gen (segments tones)
  refine ⟨hfits, hcadNow, hvoice, foldl_toneGenINF gen _, ?_⟩
  have hsplit := List.dropLast_append_getLast (segments_ne_nil tones)
  rw [listLeft, ← foldl_mToneList, ← registerSegment_mToneList, lastSegment]
  conv_lhs => rw [← hsplit]
  rw [List.foldl_append, List.foldl_cons, List.foldl_nil]

theorem exists_setToneScript (gen : ToneGene) (hvalid : (lastSegment tones).Valid)
    (hfits : ScriptFits tones) : ∃ next, gen.setToneScript tones = some next := by
  rw [setToneScript, if_neg (ne_stop_of_valid hvalid), if_pos hfits]
  exact ⟨_, rfl⟩

end

end ToneGene

namespace Segment

theorem Valid.registered {segment : Segment} (hvalid : segment.Valid) :
    segment.registered = segment.cadences :=
  List.take_of_length_le hvalid.cadences

/-- Of the cadences of a valid segment one takes some time. -/
theorem Valid.exists_not_void {segment : Segment} (hvalid : segment.Valid) :
    ∃ cad ∈ segment.cadences, ¬ cad.Void := by
  by_contra hall
  push Not at hall
  have htimes : ∀ time ∈ segment.cadences.map fun cad => cad.timeOn + cad.timeOff, time ≤ 0 := by
    intro time htime
    obtain ⟨cad, hcad, rfl⟩ := List.mem_map.mp htime
    obtain ⟨hon, hoff⟩ := hall cad hcad
    omega
  have hsum := List.sum_le_card_nsmul _ _ htimes
  rw [smul_zero] at hsum
  exact absurd hvalid.duration (not_lt.mpr hsum)

/-- The loop time of a segment that was read is an `int`. -/
theorem loopTime_lt_of_mem {tones : List Char} {segment : Segment}
    (hmem : segment ∈ segments tones) : segment.loopTime < 2147483648 := by
  obtain ⟨loop, -, rfl⟩ := List.mem_map.mp hmem
  simp only [scanSegment, signed32, Int.bmod_def]
  omega

/-- For a loop time that is not negative the cycles are the quotient. -/
theorem cycle_eq {segment : Segment} (hpos : 0 < segment.loopTime)
    (hlt : segment.loopTime < 2147483648) :
    segment.cycle = (segment.loopTime / segment.divider).toNat := by
  obtain ⟨loopTime, hloop⟩ := Int.eq_ofNat_of_zero_le hpos.le
  have hle : loopTime / segment.divider ≤ loopTime := Nat.div_le_self _ _
  rw [cycle, if_neg hpos.ne', hloop, Int.emod_eq_of_lt (by omega) (by omega), Int.toNat_natCast,
    Nat.mod_eq_of_lt (by omega)]
  rfl

theorem repetitions_eq {segment : Segment} (hpos : 0 < segment.loopTime) :
    segment.repetitions = (segment.loopTime / segment.duration).toNat := by
  rw [repetitions, if_neg hpos.ne']

theorem cycle_eq_repetitions_iff {segment : Segment} (hvalid : segment.Valid)
    (hpos : 0 < segment.loopTime) (hlt : segment.loopTime < 2147483648) :
    segment.cycle = segment.repetitions ↔
      segment.loopTime / segment.divider = segment.loopTime / segment.duration := by
  have hcycles : 0 ≤ segment.loopTime / segment.divider :=
    Int.ediv_nonneg hpos.le (Int.natCast_nonneg _)
  have hrounds : 0 ≤ segment.loopTime / segment.duration :=
    Int.ediv_nonneg hpos.le hvalid.duration.le
  rw [cycle_eq hpos hlt, repetitions_eq hpos]
  omega

/-- There is no repetition when the cadences take longer than the loop time. -/
theorem repetitions_eq_zero_iff {segment : Segment} (hvalid : segment.Valid)
    (hpos : 0 < segment.loopTime) :
    segment.repetitions = 0 ↔ segment.loopTime < segment.duration := by
  rw [repetitions_eq hpos, Int.toNat_eq_zero]
  constructor
  · intro hnone
    by_contra hlonger
    exact absurd (Int.ediv_le_ediv hvalid.duration (not_lt.mp hlonger))
      (by rw [Int.ediv_self hvalid.duration.ne']; omega)
  · intro hlonger
    exact (Int.ediv_eq_zero_of_lt hpos.le hlonger).le

theorem Valid.rounds_eq_nil_iff {segment : Segment} (hvalid : segment.Valid) {rounds : Nat} :
    (List.replicate rounds segment.cadences).flatten = [] ↔ rounds = 0 := by
  obtain ⟨cad, hmem, -⟩ := hvalid.exists_not_void
  have hsome : segment.cadences ≠ [] := List.ne_nil_of_mem hmem
  rw [List.flatten_eq_nil_iff]
  constructor
  · intro hall
    by_contra hrounds
    exact hsome (hall _ (List.mem_replicate.mpr ⟨hrounds, rfl⟩))
  · rintro rfl list hlist
    rw [List.replicate_zero] at hlist
    cases hlist

/-- An endless segment asks for something. -/
theorem score_ne_nil {segment : Segment} (hvalid : segment.Valid)
    (hendless : segment.loopTime = 0) : segment.score ≠ [] := by
  obtain ⟨cad, hmem, hnot⟩ := hvalid.exists_not_void
  intro hnil
  rw [score, rounds, repetitions, if_pos hendless] at hnil
  have hsilent := List.flatMap_eq_nil_iff.mp hnil cad (by simpa using hmem)
  exact hnot (Cadence.score_eq_nil_iff.mp hsilent)

end Segment

section

variable {cads : List Cadence}

theorem flatMap_rounds (rounds : Nat) (cads : List Cadence) (play : Cadence → List Sound) :
    (List.replicate rounds cads).flatten.flatMap play =
      (List.replicate rounds (cads.flatMap play)).flatten := by
  induction rounds with
  | zero => rfl
  | succ rounds ih =>
      rw [List.replicate_succ, List.flatten_cons, List.flatMap_append, ih, List.replicate_succ,
        List.flatten_cons]

/-- The frames of cadences are of tone or of silence. -/
theorem part_of_mem_score {sound : Sound} (hmem : sound ∈ cads.flatMap Cadence.score) :
    sound.part ≠ .stale := by
  obtain ⟨cad, -, hsound⟩ := List.mem_flatMap.mp hmem
  have hparts : ∀ part ∈ cad.parts, part ≠ .stale := by
    intro part hpart
    rcases List.mem_append.mp hpart with htone | hsilence
    · rw [(List.mem_replicate.mp htone).2]
      exact Part.noConfusion
    · rw [(List.mem_replicate.mp hsilence).2]
      exact Part.noConfusion
  rw [Cadence.score] at hsound
  cases hcad : cad.parts with
  | nil =>
      rw [hcad] at hsound
      exact absurd hsound List.not_mem_nil
  | cons part parts =>
      rw [hcad] at hsound hparts
      obtain ⟨hfirst, hrest⟩ := List.forall_mem_cons.mp hparts
      rcases List.mem_cons.mp hsound with rfl | hlater
      · exact hfirst
      · obtain ⟨later, hin, rfl⟩ := List.mem_map.mp hlater
        exact hrest later hin

theorem stale_mem_sounds {cad : Cadence} (hcad : cad ∈ cads) (hvoid : cad.Void) :
    ∃ sound ∈ cads.flatMap Cadence.sounds, sound.part = .stale := by
  refine ⟨⟨some (cad.freq1, cad.freq2), .stale⟩, List.mem_flatMap.mpr ⟨cad, hcad, ?_⟩, rfl⟩
  rw [Cadence.sounds, if_pos hvoid]
  exact List.mem_cons_self

/-- Cadences are heard as their frames unless nothing is generated for one of them. -/
theorem flatMap_sounds_eq (hall : ∀ cad ∈ cads, ¬ cad.Void) :
    cads.flatMap Cadence.sounds = cads.flatMap Cadence.score := by
  refine List.flatMap_congr fun cad hcad => ?_
  rw [Cadence.sounds, if_neg (hall cad hcad)]

/-- Endless cadences are heard as their frames exactly when something is generated for
each of them. -/
theorem endless_iff :
    (∀ n, playing true (cads.flatMap Cadence.sounds) n =
      playing true (cads.flatMap Cadence.score) n) ↔ ∀ cad ∈ cads, ¬ cad.Void := by
  constructor
  · intro hsame cad hcad hvoid
    obtain ⟨sound, hmem, hstale⟩ := stale_mem_sounds hcad hvoid
    obtain ⟨n, hn⟩ := exists_playing_of_mem true hmem
    rw [hsame n] at hn
    exact part_of_mem_score (mem_of_playing hn) hstale
  · intro hall n
    rw [flatMap_sounds_eq hall]

theorem length_rounds (rounds : Nat) (list : List Sound) :
    (List.replicate rounds list).flatten.length = rounds * list.length := by
  simp only [List.length_flatten, List.map_replicate, List.sum_replicate, smul_eq_mul]

/-- Rounds that sound like the frames of other rounds have no cadence for which nothing is
generated. -/
theorem not_void_of_rounds_eq {cycles repetitions : Nat} (hcycles : cycles ≠ 0)
    (heq : (List.replicate cycles (cads.flatMap Cadence.sounds)).flatten =
      (List.replicate repetitions (cads.flatMap Cadence.score)).flatten) :
    ∀ cad ∈ cads, ¬ cad.Void := by
  intro cad hcad hvoid
  obtain ⟨sound, hmem, hstale⟩ := stale_mem_sounds hcad hvoid
  have hrounds : sound ∈ (List.replicate cycles (cads.flatMap Cadence.sounds)).flatten :=
    List.mem_flatten.mpr ⟨_, List.mem_replicate.mpr ⟨hcycles, rfl⟩, hmem⟩
  rw [heq] at hrounds
  obtain ⟨round, hround, hin⟩ := List.mem_flatten.mp hrounds
  rw [(List.mem_replicate.mp hround).2] at hin
  exact part_of_mem_score hin hstale

/-- So many rounds are heard as the frames of so many rounds. -/
theorem rounds_iff (hsome : ∃ cad ∈ cads, ¬ cad.Void) {cycles repetitions : Nat} :
    (List.replicate cycles cads).flatten.flatMap Cadence.sounds =
        (List.replicate repetitions cads).flatten.flatMap Cadence.score ↔
      cycles = repetitions ∧ (repetitions = 0 ∨ ∀ cad ∈ cads, ¬ cad.Void) := by
  obtain ⟨some, hmem, hnot⟩ := hsome
  have hpos : 0 < (cads.flatMap Cadence.score).length := by
    apply List.length_pos_of_ne_nil
    intro hnil
    exact Cadence.score_eq_nil_iff.not.mpr hnot (List.flatMap_eq_nil_iff.mp hnil some hmem)
  rw [flatMap_rounds, flatMap_rounds]
  constructor
  · intro heq
    have hlength := congrArg List.length heq
    rw [length_rounds, length_rounds] at hlength
    by_cases hcycles : cycles = 0
    · -- no round is played, so none is asked for
      rw [hcycles, Nat.zero_mul] at hlength
      have hnone := (Nat.mul_eq_zero.mp hlength.symm).resolve_right hpos.ne'
      exact ⟨hcycles.trans hnone.symm, .inl hnone⟩
    · have hall := not_void_of_rounds_eq hcycles heq
      rw [flatMap_sounds_eq hall] at hlength
      exact ⟨Nat.eq_of_mul_eq_mul_right hpos hlength, .inr hall⟩
  · rintro ⟨rfl, rfl | hall⟩
    · rfl
    · rw [flatMap_sounds_eq hall]

end

end McuProxy.Tone
