/-
# The compound conference

`CompoundMix` holds an audio and a video mixer and caches the sum of their
client counts. The cache is refreshed after a node joined or left through the
compound. A reset goes to both mixers and refreshes nothing, and the video mixer
clears its count when it is reset; a `start` that fails resets as well.

What the threads of the two mixers answer to being started and stopped comes
from outside and is part of a call.
-/

import McuProxy.Conf.VideoConfMix
import McuProxy.Conf.WaitingRoom
import Mathlib.Data.Int.Bitwise

namespace McuProxy.Conf

open McuProxy.Math

/-- `NO_INIT` of `status_t`. -/
def noInit : Int := -19

/-- `reset` of the audio mixer: the thread is told to exit, the nodes and their
count stay. -/
def AudioConfMix.reset {Node : Type} (mixer : AudioConfMix Node) : Int × AudioConfMix Node :=
  (noError, mixer)

/-- What the compound needs to know of `IMediaNode`: the types that the mixers
tell apart, and the classes they fall into. -/
structure ClassKinds (Node : Type) extends VideoKinds Node where
  nodeClassMask : Int
  nodeAClass : Int
  nodeVClass : Int

structure CompoundMix (Node Buffer : Type) where
  mAudioMix : Option (AudioConfMix Node)
  mVideoMix : Option (VideoConfMix Node Buffer)
  mClientNum : Int

namespace CompoundMix

variable {Node Buffer : Type}

/-- `create`, on the mixer that `AudioConfMix::create` made; there is no compound
without both. -/
def create (audio : AudioConfMix Node) : CompoundMix Node Buffer where
  mAudioMix := some audio
  mVideoMix := some VideoConfMix.create
  mClientNum := 0

def doUpdateClientNum (mixer : CompoundMix Node Buffer) : Int × CompoundMix Node Buffer :=
  match mixer.mAudioMix, mixer.mVideoMix with
  | some audio, some video =>
      (noError, { mixer with mClientNum := audio.mClientNum + video.mClientNum })
  | some audio, none => (noError, { mixer with mClientNum := audio.mClientNum })
  | none, some video => (noError, { mixer with mClientNum := video.mClientNum })
  | none, none => (unknownError, mixer)

/-- `reset`, where the thread of the video mixer answers `exitErr` to
`requestExitAndWait`. The answers of the two mixers are dropped. -/
def reset (exitErr : Int) (mixer : CompoundMix Node Buffer) : Int × CompoundMix Node Buffer :=
  (noError, { mixer with
    mAudioMix := mixer.mAudioMix.map fun audio => audio.reset.2
    mVideoMix := mixer.mVideoMix.map fun video => (video.reset exitErr).2 })

/-- `start`, where the mixers answer `audioErr` and `videoErr` to being started.
The two pointers are not tested here, and a null one has no behaviour. -/
def start (audioErr videoErr exitErr : Int) (mixer : CompoundMix Node Buffer) :
    Option (Int × CompoundMix Node Buffer) := do
  let _ ← mixer.mAudioMix
  let err ←
    if audioErr ≠ noError then some audioErr
    else do
      let video ← mixer.mVideoMix
      if video.mClientNum ≠ 0 then some videoErr else some audioErr
  if err ≠ noError then some (err, (mixer.reset exitErr).2) else some (err, mixer)

variable [DecidableEq Node] (kinds : ClassKinds Node)

/-- `_type & NODE_CLASS_MASK`. -/
def nodeClass (node : Node) : Int := Int.land (kinds.nodeType node) kinds.nodeClassMask

/-- What the mixer of the node's class answers to a call, with the compound that
holds its new state. `audioCall` and `videoCall` are that call on each mixer. -/
def forward (audioCall : AudioConfMix Node → Node → Int × AudioConfMix Node)
    (videoCall : VideoConfMix Node Buffer → Option Node → Int × VideoConfMix Node Buffer)
    (mixer : CompoundMix Node Buffer) (node : Node) : Int × CompoundMix Node Buffer :=
  if nodeClass kinds node = kinds.nodeAClass then
    match mixer.mAudioMix with
    | none => (noInit, mixer)
    | some audio =>
        ((audioCall audio node).1, { mixer with mAudioMix := some (audioCall audio node).2 })
  else if nodeClass kinds node = kinds.nodeVClass then
    match mixer.mVideoMix with
    | none => (noInit, mixer)
    | some video =>
        ((videoCall video (some node)).1,
          { mixer with mVideoMix := some (videoCall video (some node)).2 })
  else (unknownError, mixer)

/-- The common body of `doInsertNode` and `doRemoveNode`: the count is refreshed
when the mixer reports success. -/
def forwardAndUpdate (audioCall : AudioConfMix Node → Node → Int × AudioConfMix Node)
    (videoCall : VideoConfMix Node Buffer → Option Node → Int × VideoConfMix Node Buffer)
    (mixer : CompoundMix Node Buffer) : Option Node → Int × CompoundMix Node Buffer
  | none => (badValue, mixer)
  | some node =>
      let answer := mixer.forward kinds audioCall videoCall node
      if answer.1 ≠ noError then answer else answer.2.doUpdateClientNum

def doInsertNode (mixer : CompoundMix Node Buffer) (node : Option Node) :
    Int × CompoundMix Node Buffer :=
  mixer.forwardAndUpdate kinds (AudioConfMix.doInsertNode kinds.toNodeKinds)
    (VideoConfMix.doInsertNode kinds.toVideoKinds) node

def doRemoveNode (mixer : CompoundMix Node Buffer) (node : Option Node) :
    Int × CompoundMix Node Buffer :=
  mixer.forwardAndUpdate kinds (AudioConfMix.doRemoveNode kinds.toNodeKinds)
    (VideoConfMix.doRemoveNode kinds.toVideoKinds) node

inductive CompoundCall (Node : Type)
  | start (audioErr videoErr exitErr : Int)
  | reset (exitErr : Int)
  | insert (node : Option Node)
  | remove (node : Option Node)

/-- One call as a step of a machine. -/
def compoundStep (mixer : CompoundMix Node Buffer) :
    CompoundCall Node → Option (CompoundMix Node Buffer)
  | .start audioErr videoErr exitErr => (mixer.start audioErr videoErr exitErr).map Prod.snd
  | .reset exitErr => some (mixer.reset exitErr).2
  | .insert node => some (mixer.doInsertNode kinds node).2
  | .remove node => some (mixer.doRemoveNode kinds node).2

/-- Both mixers are there, and the cache is the sum of their counts. -/
def CountAgrees (mixer : CompoundMix Node Buffer) : Prop :=
  ∃ audio video, mixer.mAudioMix = some audio ∧ mixer.mVideoMix = some video ∧
    mixer.mClientNum = audio.mClientNum + video.mClientNum

/-- The counts agree at the start and after every call. -/
def CountLaw (mixer : CompoundMix Node Buffer) (calls : List (CompoundCall Node)) : Prop :=
  CountAgrees mixer ∧
    Promised (compoundStep kinds) (fun mixer call =>
      ∃ next, mixer.compoundStep kinds call = some next ∧ CountAgrees next) mixer calls

/-- The call is a reset, or a `start` that one of the mixers fails, and the video
thread exits. -/
def ResetsVideo (mixer : CompoundMix Node Buffer) : CompoundCall Node → Prop
  | .start audioErr videoErr exitErr =>
      exitErr = noError ∧ (audioErr ≠ noError ∨ (videoErr ≠ noError ∧
        ∀ video, mixer.mVideoMix = some video → video.mClientNum ≠ 0))
  | .reset exitErr => exitErr = noError
  | .insert _ => False
  | .remove _ => False

/-- The video mixer is reset while its client count is zero. -/
def VideoResetIdle (mixer : CompoundMix Node Buffer) (call : CompoundCall Node) : Prop :=
  ResetsVideo mixer call → ∀ video, mixer.mVideoMix = some video → video.mClientNum = 0

/-- A mixer that reports an error has kept its count. -/
theorem audio_doInsertNode_error {audio : AudioConfMix Node} {node : Node}
    (herr : (audio.doInsertNode kinds.toNodeKinds node).1 ≠ noError) :
    (audio.doInsertNode kinds.toNodeKinds node).2.mClientNum = audio.mClientNum := by
  simp only [AudioConfMix.doInsertNode] at herr ⊢
  split_ifs at herr ⊢
  · rfl
  · rfl
  all_goals exact absurd rfl herr

theorem audio_doRemoveNode_error {audio : AudioConfMix Node} {node : Node}
    (herr : (audio.doRemoveNode kinds.toNodeKinds node).1 ≠ noError) :
    (audio.doRemoveNode kinds.toNodeKinds node).2.mClientNum = audio.mClientNum := by
  unfold AudioConfMix.doRemoveNode at herr ⊢
  split_ifs at herr ⊢
  all_goals exact absurd rfl herr

omit [DecidableEq Node] in
theorem video_doInsertNode_error {video : VideoConfMix Node Buffer} {node : Option Node}
    (herr : (video.doInsertNode kinds.toVideoKinds node).1 ≠ noError) :
    (video.doInsertNode kinds.toVideoKinds node).2.mClientNum = video.mClientNum := by
  rcases VideoConfMix.doInsertNode_cases kinds.toVideoKinds video node with
    hsame | ⟨_, _, ⟨_, _, hdone⟩ | ⟨_, _, hdone⟩ | ⟨_, _, hdone⟩⟩
  · rw [hsame]
  all_goals exact absurd (congrArg Prod.fst hdone) herr

theorem video_doRemoveNode_error {video : VideoConfMix Node Buffer} {node : Option Node}
    (herr : (video.doRemoveNode kinds.toVideoKinds node).1 ≠ noError) :
    (video.doRemoveNode kinds.toVideoKinds node).2.mClientNum = video.mClientNum := by
  rcases VideoConfMix.doRemoveNode_cases kinds.toVideoKinds video node with
    hsame | ⟨_, _, _, ⟨_, hdone⟩ | ⟨_, hdone⟩ | ⟨_, hdone⟩⟩
  · rw [hsame]
  all_goals exact absurd (congrArg Prod.fst hdone) herr

omit [DecidableEq Node] in
/-- A forwarded call keeps the counts in agreement when it keeps the count of a
mixer it reports an error for. -/
theorem CountAgrees.forwardAndUpdate
    {audioCall : AudioConfMix Node → Node → Int × AudioConfMix Node}
    {videoCall : VideoConfMix Node Buffer → Option Node → Int × VideoConfMix Node Buffer}
    (haudio : ∀ audio node, (audioCall audio node).1 ≠ noError →
      (audioCall audio node).2.mClientNum = audio.mClientNum)
    (hvideo : ∀ video node, (videoCall video node).1 ≠ noError →
      (videoCall video node).2.mClientNum = video.mClientNum)
    {mixer : CompoundMix Node Buffer} (hagrees : CountAgrees mixer) (node : Option Node) :
    CountAgrees (mixer.forwardAndUpdate kinds audioCall videoCall node).2 := by
  obtain ⟨mixAudio, mixVideo, count⟩ := mixer
  obtain ⟨audio, video, rfl, rfl, hcount⟩ := hagrees
  cases node with
  | none => exact ⟨audio, video, rfl, rfl, hcount⟩
  | some node =>
      simp only [CompoundMix.forwardAndUpdate, forward]
      by_cases hclass : nodeClass kinds node = kinds.nodeAClass
      · simp only [if_pos hclass]
        split_ifs with herr
        · exact ⟨_, video, rfl, rfl, by rw [haudio audio node herr, hcount]⟩
        · exact ⟨_, video, rfl, rfl, rfl⟩
      · by_cases hclass' : nodeClass kinds node = kinds.nodeVClass
        · simp only [if_neg hclass, if_pos hclass']
          split_ifs with herr
          · exact ⟨audio, _, rfl, rfl, by rw [hvideo video _ herr, hcount]⟩
          · exact ⟨audio, _, rfl, rfl, rfl⟩
        · simp only [if_neg hclass, if_neg hclass']
          exact ⟨audio, video, rfl, rfl, hcount⟩

omit [DecidableEq Node] in
/-- After a reset the counts agree when the video thread did not exit or there
was no client to forget. -/
theorem reset_agrees_iff {mixer : CompoundMix Node Buffer} (hagrees : CountAgrees mixer)
    (exitErr : Int) :
    CountAgrees (mixer.reset exitErr).2 ↔
      (exitErr = noError → ∀ video, mixer.mVideoMix = some video → video.mClientNum = 0) := by
  obtain ⟨audio, video, hmixAudio, hmixVideo, hcount⟩ := hagrees
  by_cases hexit : exitErr = noError
  · simp only [CountAgrees, reset, hmixAudio, hmixVideo, VideoConfMix.reset, AudioConfMix.reset,
      hexit, hcount, Option.map_some, ne_eq, not_true, if_false, Option.some.injEq, forall_const,
      forall_eq', exists_and_left, exists_eq_left']
    omega
  · simp [CountAgrees, reset, hmixAudio, hmixVideo, VideoConfMix.reset, AudioConfMix.reset,
      hexit, hcount]

omit [DecidableEq Node] in
/-- A `start` resets exactly when one of the mixers fails it. -/
theorem start_eq {mixer : CompoundMix Node Buffer} {audio : AudioConfMix Node}
    {video : VideoConfMix Node Buffer} (hmixAudio : mixer.mAudioMix = some audio)
    (hmixVideo : mixer.mVideoMix = some video) (audioErr videoErr exitErr : Int) :
    (mixer.start audioErr videoErr exitErr).map Prod.snd =
      some (if audioErr ≠ noError ∨ (videoErr ≠ noError ∧ video.mClientNum ≠ 0)
        then (mixer.reset exitErr).2 else mixer) := by
  by_cases haudio : audioErr = noError
  · by_cases hclients : video.mClientNum = 0
    · simp [start, hmixAudio, hmixVideo, haudio, hclients]
    · by_cases hvideo : videoErr = noError
      · simp [start, hmixAudio, hmixVideo, haudio, hclients, hvideo]
      · simp [start, hmixAudio, hmixVideo, haudio, hclients, hvideo]
  · simp [start, hmixAudio, haudio]

/-- From agreeing counts, one call leads to agreeing counts exactly when it does
not reset a video mixer that has clients. -/
theorem compoundStep_agrees_iff {mixer : CompoundMix Node Buffer} (hagrees : CountAgrees mixer)
    (call : CompoundCall Node) :
    (∃ next, mixer.compoundStep kinds call = some next ∧ CountAgrees next) ↔
      VideoResetIdle mixer call := by
  cases call with
  | start audioErr videoErr exitErr =>
      obtain ⟨audio, video, hmixAudio, hmixVideo, hcount⟩ := hagrees
      have hreset := reset_agrees_iff ⟨audio, video, hmixAudio, hmixVideo, hcount⟩ exitErr
      simp only [compoundStep, start_eq hmixAudio hmixVideo, Option.some.injEq, exists_eq_left',
        VideoResetIdle, ResetsVideo, hmixVideo, forall_eq']
      simp only [hmixVideo, Option.some.injEq, forall_eq'] at hreset
      split_ifs with hfailed
      · rw [hreset]
        exact ⟨fun hidle hcall => hidle hcall.1, fun hidle hexit => hidle ⟨hexit, hfailed⟩⟩
      · exact iff_of_true ⟨audio, video, hmixAudio, hmixVideo, hcount⟩
          fun hcall => absurd hcall.2 hfailed
  | reset exitErr =>
      simpa only [compoundStep, Option.some.injEq, exists_eq_left', VideoResetIdle, ResetsVideo]
        using reset_agrees_iff hagrees exitErr
  | insert node =>
      refine iff_of_true ⟨_, rfl, ?_⟩ False.elim
      exact hagrees.forwardAndUpdate kinds (fun _ _ => audio_doInsertNode_error kinds)
        (fun _ _ => video_doInsertNode_error kinds) node
  | remove node =>
      refine iff_of_true ⟨_, rfl, ?_⟩ False.elim
      exact hagrees.forwardAndUpdate kinds (fun _ _ => audio_doRemoveNode_error kinds)
        (fun _ _ => video_doRemoveNode_error kinds) node

/-- The cached count is right along exactly the sequences of calls in which the
video mixer is only ever reset while its client count is zero. -/
theorem countLaw_iff (strong : Node → Int) (ampIn ampOut : Nat → FastmixVol)
    (rxMeta : Nat → RxMeta) (buffer : Nat → Int) (calls : List (CompoundCall Node)) :
    CountLaw kinds
        (create (AudioConfMix.create strong ampIn ampOut rxMeta buffer) : CompoundMix Node Buffer)
        calls ↔
      Promised (compoundStep kinds) VideoResetIdle
        (create (AudioConfMix.create strong ampIn ampOut rxMeta buffer) : CompoundMix Node Buffer)
        calls := by
  have hstart : CountAgrees (create (AudioConfMix.create strong ampIn ampOut rxMeta buffer) :
      CompoundMix Node Buffer) := ⟨_, _, rfl, rfl, rfl⟩
  rw [CountLaw, and_iff_right hstart]
  refine Promised.congr_unconditional CountAgrees
    (fun mixer call hagrees => compoundStep_agrees_iff kinds hagrees call) ?_ hstart calls
  intro mixer call next hagrees hidle hstep
  obtain ⟨other, hother, hnext⟩ := (compoundStep_agrees_iff kinds hagrees call).mpr hidle
  obtain rfl := Option.some.inj (hstep.symm.trans hother)
  exact hnext

/-- A video client joins and the conference is reset: the compound still counts
one client and its mixers none. -/
theorem countLaw_fails_after_reset :
    ¬ CountLaw (⟨VideoConfMix.sampleKinds, 31, 1, 10⟩ : ClassKinds Nat)
      (create (AudioConfMix.create (fun _ => 1) (fun _ => .mixDisable) (fun _ => .mixDisable)
        (fun _ => ⟨0, 0, none⟩) fun _ => 0) : CompoundMix Nat Unit)
      [.insert (some 110), .reset noError] := by
  rintro ⟨-, halong⟩
  obtain ⟨next, hnext, audio, video, haudio, hvideo, hcount⟩ := (halong.2 _ rfl).1
  obtain rfl := Option.some.inj hnext
  obtain rfl := Option.some.inj haudio
  obtain rfl := Option.some.inj hvideo
  exact absurd hcount (by decide)

end CompoundMix

end McuProxy.Conf
