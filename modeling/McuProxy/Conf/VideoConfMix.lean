/-
# The video conference

`VideoConfMix` keeps its nodes in a list ordered by type and stands three
counters beside it: clients, cameras, and one for every other node, which the
code takes for an encoder. Each counter has its own limit, and the array of
slots has as many entries as the three limits together, so the list fits the
array only as long as the counters count it.

They do as long as `reset` is given a mixer without clients. It clears
`mClientNum` and keeps the nodes: the loop that emptied the list is compiled
out. The clients it leaves behind are not counted, and as many new ones are let
in on top of them.
-/

import McuProxy.Conf.AudioConfMix
import McuProxy.Math.Machine

namespace McuProxy.Conf

open McuProxy.Math

def maxVideoClient : Nat := 2

def maxVideoCamera : Nat := 1

def maxVideoEncoder : Nat := 1

def maxVideoItems : Nat := maxVideoCamera + maxVideoClient + maxVideoEncoder

/-- What the video conference needs to know of `IMediaNode`. The test for an
encoder is a test of the constant alone, so what matters of it there is that it
is not zero. -/
structure VideoKinds (Node : Type) extends NodeKinds Node where
  nodeVIpRender : Int
  nodeVCameraSet : Int
  nodeVEncoder : Int
  render_ne_camera : nodeVIpRender ≠ nodeVCameraSet
  encoder_ne_zero : nodeVEncoder ≠ 0

/-- A slot of `mMetas`; `none` is a null buffer. -/
structure MixMeta (Buffer : Type) where
  txBuffer : Option Buffer
  rxBuffer : Option Buffer
  deriving DecidableEq

/-- The mixer. `mCameraNum` and `mEncoderNum` are `uint32_t`. -/
structure VideoConfMix (Node Buffer : Type) where
  mNodeList : List Node
  mClientNum : Int
  mCameraNum : Nat
  mEncoderNum : Nat
  mMetas : Nat → MixMeta Buffer

namespace VideoConfMix

variable {Node Buffer : Type}

/-- The mixer after `create`. -/
def create : VideoConfMix Node Buffer where
  mNodeList := []
  mClientNum := 0
  mCameraNum := 0
  mEncoderNum := 0
  mMetas _ := ⟨none, none⟩

/-- `--counter` on a `uint32_t`. -/
def decrement (counter : Nat) : Nat := (counter + 4294967295) % 4294967296

section Calls

variable [DecidableEq Node] (kinds : VideoKinds Node)

/-- The list with `node` before the first node of a larger type. -/
def enlisted (mixer : VideoConfMix Node Buffer) (node : Node) : List Node :=
  insertBefore (fun other => kinds.nodeType node < kinds.nodeType other) node mixer.mNodeList

/-- `doInsertNode`. Each limit is tested before anything changes. -/
def doInsertNode (mixer : VideoConfMix Node Buffer) :
    Option Node → Int × VideoConfMix Node Buffer
  | none => (unknownError, mixer)
  | some node =>
      if kinds.nodeVIpRender = kinds.nodeType node then
        if mixer.mClientNum ≥ maxVideoClient then (unknownError, mixer)
        else (noError, { mixer with
          mNodeList := mixer.enlisted kinds node, mClientNum := mixer.mClientNum + 1 })
      else if kinds.nodeVCameraSet = kinds.nodeType node then
        if mixer.mCameraNum ≥ maxVideoCamera then (unknownError, mixer)
        else (noError, { mixer with
          mNodeList := mixer.enlisted kinds node, mCameraNum := mixer.mCameraNum + 1 })
      -- the type of the node is not compared with the constant
      else if kinds.nodeVEncoder ≠ 0 then
        if mixer.mEncoderNum ≥ maxVideoEncoder then (unknownError, mixer)
        else (noError, { mixer with
          mNodeList := mixer.enlisted kinds node, mEncoderNum := mixer.mEncoderNum + 1 })
      else (noError, mixer)

/-- `doRemoveNode`: the first entry of the node leaves the list. -/
def doRemoveNode (mixer : VideoConfMix Node Buffer) :
    Option Node → Int × VideoConfMix Node Buffer
  | none => (unknownError, mixer)
  | some node =>
      if node ∈ mixer.mNodeList then
        let mixer := { mixer with mNodeList := mixer.mNodeList.erase node }
        if kinds.nodeVIpRender = kinds.nodeType node then
          (noError, { mixer with mClientNum := mixer.mClientNum - 1 })
        else if kinds.nodeVCameraSet = kinds.nodeType node then
          (noError, { mixer with mCameraNum := decrement mixer.mCameraNum })
        else if kinds.nodeVEncoder ≠ 0 then
          (noError, { mixer with mEncoderNum := decrement mixer.mEncoderNum })
        else (noError, mixer)
      else (unknownError, mixer)

end Calls

/-- `reset`, where `requestExitAndWait` answers `exitErr`. The nodes stay. -/
def reset (exitErr : Int) (mixer : VideoConfMix Node Buffer) : Int × VideoConfMix Node Buffer :=
  if exitErr ≠ noError then (exitErr, mixer)
  else (exitErr, { mixer with mClientNum := 0 })

variable [DecidableEq Node] (kinds : VideoKinds Node)

/-- The three calls that touch the list or its counters. -/
inductive VideoCall (Node : Type)
  | insert (node : Option Node)
  | remove (node : Option Node)
  | reset (exitErr : Int)

/-- What a call returns and leaves. -/
def answer (mixer : VideoConfMix Node Buffer) : VideoCall Node → Int × VideoConfMix Node Buffer
  | .insert node => mixer.doInsertNode kinds node
  | .remove node => mixer.doRemoveNode kinds node
  | .reset exitErr => mixer.reset exitErr

/-- One call as a step of a machine. -/
def videoStep (mixer : VideoConfMix Node Buffer) (call : VideoCall Node) :
    Option (VideoConfMix Node Buffer) :=
  some (mixer.answer kinds call).2

def isRender (node : Node) : Bool := kinds.nodeType node = kinds.nodeVIpRender

def isCamera (node : Node) : Bool := kinds.nodeType node = kinds.nodeVCameraSet

/-- What `mEncoderNum` counts. -/
def isOther (node : Node) : Bool := !isRender kinds node && !isCamera kinds node

/-- The counters count the list, the list fits `mMetas`, and the offset that
`threadLoop` computes for the encoder is an index of it. -/
structure VideoAccounts (mixer : VideoConfMix Node Buffer) : Prop where
  clients : mixer.mClientNum = mixer.mNodeList.countP (isRender kinds)
  cameras : mixer.mCameraNum = mixer.mNodeList.countP (isCamera kinds)
  encoders : mixer.mEncoderNum = mixer.mNodeList.countP (isOther kinds)
  items : mixer.mNodeList.length ≤ maxVideoItems
  offset : mixer.mCameraNum + mixer.mClientNum < maxVideoItems

/-- The accounting law of a sequence of calls: the accounts are right at the
start and after every call, and an insertion that returns an error leaves the
mixer as it was. -/
def VideoAccountingLaw (mixer : VideoConfMix Node Buffer) (calls : List (VideoCall Node)) : Prop :=
  VideoAccounts kinds mixer ∧
    Promised (videoStep kinds) (fun mixer call =>
      VideoAccounts kinds (mixer.answer kinds call).2 ∧
        ∀ node, call = .insert node → (mixer.doInsertNode kinds node).1 ≠ noError →
          (mixer.doInsertNode kinds node).2 = mixer) mixer calls

/-- A reset that goes through finds no client in the list. -/
def ResetWithoutClients (mixer : VideoConfMix Node Buffer) (call : VideoCall Node) : Prop :=
  call = .reset noError → ∀ node ∈ mixer.mNodeList, kinds.nodeType node ≠ kinds.nodeVIpRender

omit [DecidableEq Node] in
@[simp]
theorem isRender_iff {node : Node} :
    isRender kinds node = true ↔ kinds.nodeType node = kinds.nodeVIpRender := by
  simp [isRender]

omit [DecidableEq Node] in
@[simp]
theorem isCamera_iff {node : Node} :
    isCamera kinds node = true ↔ kinds.nodeType node = kinds.nodeVCameraSet := by
  simp [isCamera]

omit [DecidableEq Node] in
@[simp]
theorem isOther_iff {node : Node} :
    isOther kinds node = true ↔ kinds.nodeType node ≠ kinds.nodeVIpRender ∧
      kinds.nodeType node ≠ kinds.nodeVCameraSet := by
  simp [isOther, isRender, isCamera]

omit [DecidableEq Node] in
/-- A node is of exactly one of the three kinds. -/
theorem kinds_cases (node : Node) :
    (isRender kinds node = true ∧ isCamera kinds node = false ∧ isOther kinds node = false) ∨
    (isRender kinds node = false ∧ isCamera kinds node = true ∧ isOther kinds node = false) ∨
    (isRender kinds node = false ∧ isCamera kinds node = false ∧ isOther kinds node = true) := by
  have hne := kinds.render_ne_camera
  by_cases hrender : kinds.nodeType node = kinds.nodeVIpRender
  · simp [isRender, isCamera, isOther, hrender, hne]
  · by_cases hcamera : kinds.nodeType node = kinds.nodeVCameraSet
    · simp [isRender, isCamera, isOther, hcamera, hne.symm]
    · simp [isRender, isCamera, isOther, hrender, hcamera]

omit [DecidableEq Node] in
theorem length_eq_kinds (list : List Node) :
    list.length = list.countP (isRender kinds) + list.countP (isCamera kinds) +
      list.countP (isOther kinds) := by
  induction list with
  | nil => rfl
  | cons node list ih =>
      simp only [List.length_cons, List.countP_cons, ih]
      rcases kinds_cases kinds node with h | h | h <;> simp [h] <;> omega

omit [DecidableEq Node] in
/-- An insertion is refused and changes nothing, or it enlists a node of a kind
that has room and counts it. -/
theorem doInsertNode_cases (mixer : VideoConfMix Node Buffer) (node : Option Node) :
    mixer.doInsertNode kinds node = (unknownError, mixer) ∨
    ∃ member, node = some member ∧
      ((isRender kinds member = true ∧ mixer.mClientNum < maxVideoClient ∧
          mixer.doInsertNode kinds node = (noError, { mixer with
            mNodeList := mixer.enlisted kinds member, mClientNum := mixer.mClientNum + 1 })) ∨
        (isCamera kinds member = true ∧ mixer.mCameraNum < maxVideoCamera ∧
          mixer.doInsertNode kinds node = (noError, { mixer with
            mNodeList := mixer.enlisted kinds member, mCameraNum := mixer.mCameraNum + 1 })) ∨
        (isOther kinds member = true ∧ mixer.mEncoderNum < maxVideoEncoder ∧
          mixer.doInsertNode kinds node = (noError, { mixer with
            mNodeList := mixer.enlisted kinds member,
            mEncoderNum := mixer.mEncoderNum + 1 }))) := by
  cases node with
  | none => exact .inl rfl
  | some member =>
      simp only [doInsertNode]
      split_ifs with hrender hfull hcamera hfull hencoder hfull
      · exact .inl rfl
      · exact .inr ⟨member, rfl, .inl ⟨by simp [hrender], not_le.mp hfull, rfl⟩⟩
      · exact .inl rfl
      · exact .inr ⟨member, rfl, .inr (.inl ⟨by simp [hcamera], not_le.mp hfull, rfl⟩)⟩
      · exact .inl rfl
      · exact .inr ⟨member, rfl, .inr (.inr
          ⟨by simp [Ne.symm hrender, Ne.symm hcamera], not_le.mp hfull, rfl⟩)⟩
      · exact absurd kinds.encoder_ne_zero hencoder

/-- A removal changes nothing, or it takes out a node of the list and discounts
it. -/
theorem doRemoveNode_cases (mixer : VideoConfMix Node Buffer) (node : Option Node) :
    mixer.doRemoveNode kinds node = (unknownError, mixer) ∨
    ∃ member ∈ mixer.mNodeList, node = some member ∧
      ((isRender kinds member = true ∧
          mixer.doRemoveNode kinds node = (noError, { mixer with
            mNodeList := mixer.mNodeList.erase member, mClientNum := mixer.mClientNum - 1 })) ∨
        (isCamera kinds member = true ∧
          mixer.doRemoveNode kinds node = (noError, { mixer with
            mNodeList := mixer.mNodeList.erase member
            mCameraNum := decrement mixer.mCameraNum })) ∨
        (isOther kinds member = true ∧
          mixer.doRemoveNode kinds node = (noError, { mixer with
            mNodeList := mixer.mNodeList.erase member
            mEncoderNum := decrement mixer.mEncoderNum }))) := by
  cases node with
  | none => exact .inl rfl
  | some member =>
      simp only [doRemoveNode]
      split_ifs with hmember hrender hcamera hencoder
      · exact .inr ⟨member, hmember, rfl, .inl ⟨by simp [hrender], rfl⟩⟩
      · exact .inr ⟨member, hmember, rfl, .inr (.inl ⟨by simp [hcamera], rfl⟩)⟩
      · exact .inr ⟨member, hmember, rfl, .inr (.inr
          ⟨by simp [Ne.symm hrender, Ne.symm hcamera], rfl⟩)⟩
      · exact absurd kinds.encoder_ne_zero hencoder
      · exact .inl rfl

omit [DecidableEq Node] in
theorem countP_enlisted (mixer : VideoConfMix Node Buffer) (node : Node) (test : Node → Bool) :
    (mixer.enlisted kinds node).countP test =
      mixer.mNodeList.countP test + if test node = true then 1 else 0 := by
  rw [enlisted, (insertBefore_perm _ _ _).countP_eq, List.countP_cons]

theorem countP_erase {list : List Node} {node : Node} (hnode : node ∈ list)
    (test : Node → Bool) :
    list.countP test = (list.erase node).countP test + if test node = true then 1 else 0 := by
  rw [(List.perm_cons_erase hnode).countP_eq, List.countP_cons]

/-- The counters count the list and keep to their limits. -/
structure Counted (mixer : VideoConfMix Node Buffer) : Prop where
  clients : mixer.mClientNum = mixer.mNodeList.countP (isRender kinds)
  clients_le : mixer.mClientNum ≤ maxVideoClient
  cameras : mixer.mCameraNum = mixer.mNodeList.countP (isCamera kinds)
  cameras_le : mixer.mCameraNum ≤ maxVideoCamera
  encoders : mixer.mEncoderNum = mixer.mNodeList.countP (isOther kinds)
  encoders_le : mixer.mEncoderNum ≤ maxVideoEncoder

omit [DecidableEq Node] in
theorem create_counted : Counted kinds (create : VideoConfMix Node Buffer) :=
  ⟨rfl, Int.natCast_nonneg _, rfl, Nat.zero_le _, rfl, Nat.zero_le _⟩

omit [DecidableEq Node] in
theorem Counted.accounts {mixer : VideoConfMix Node Buffer} (hcounted : Counted kinds mixer) :
    VideoAccounts kinds mixer := by
  obtain ⟨hclients, hclients_le, hcameras, hcameras_le, hencoders, hencoders_le⟩ := hcounted
  have hlength := length_eq_kinds kinds mixer.mNodeList
  simp only [maxVideoClient, maxVideoCamera,
    maxVideoEncoder] at hclients_le hcameras_le hencoders_le
  refine ⟨hclients, hcameras, hencoders, ?_, ?_⟩ <;>
    simp only [maxVideoItems, maxVideoClient, maxVideoCamera, maxVideoEncoder] <;> omega

omit [DecidableEq Node] in
theorem Counted.doInsertNode {mixer : VideoConfMix Node Buffer} (hcounted : Counted kinds mixer)
    (node : Option Node) : Counted kinds (mixer.doInsertNode kinds node).2 := by
  obtain ⟨hclients, hclients_le, hcameras, hcameras_le, hencoders, hencoders_le⟩ := hcounted
  rcases doInsertNode_cases kinds mixer node with hsame | ⟨member, rfl, hkind⟩
  · rw [hsame]
    exact ⟨hclients, hclients_le, hcameras, hcameras_le, hencoders, hencoders_le⟩
  · have hcount := countP_enlisted kinds mixer member
    have hmember := kinds_cases kinds member
    rcases hkind with
      ⟨hkind, hroom, hinsert⟩ | ⟨hkind, hroom, hinsert⟩ | ⟨hkind, hroom, hinsert⟩ <;>
      rw [hinsert] <;> simp only [hkind, Bool.true_eq_false, false_and, and_false, or_false,
        false_or, true_and] at hmember <;>
      constructor <;> simp only [hcount, hkind, hmember, if_true, if_false, Bool.false_eq_true] <;>
      omega

theorem Counted.doRemoveNode {mixer : VideoConfMix Node Buffer} (hcounted : Counted kinds mixer)
    (node : Option Node) : Counted kinds (mixer.doRemoveNode kinds node).2 := by
  obtain ⟨hclients, hclients_le, hcameras, hcameras_le, hencoders, hencoders_le⟩ := hcounted
  rcases doRemoveNode_cases kinds mixer node with hsame | ⟨member, hin, rfl, hkind⟩
  · rw [hsame]
    exact ⟨hclients, hclients_le, hcameras, hcameras_le, hencoders, hencoders_le⟩
  · have hmember := kinds_cases kinds member
    simp only [maxVideoClient, maxVideoCamera, maxVideoEncoder] at *
    rw [countP_erase hin] at hclients hcameras hencoders
    rcases hkind with ⟨hkind, hremove⟩ | ⟨hkind, hremove⟩ | ⟨hkind, hremove⟩ <;>
      rw [hremove] <;> simp only [hkind, Bool.true_eq_false, false_and, and_false, or_false,
        false_or, true_and] at hmember <;>
      simp only [hkind, hmember, if_true, if_false, Bool.false_eq_true, Nat.add_zero]
        at hclients hcameras hencoders <;>
      constructor <;>
        simp only [maxVideoClient, maxVideoCamera, maxVideoEncoder, decrement] <;> omega

/-- A call keeps the accounts, unless it is a reset that goes through with
clients in the list. -/
theorem Counted.answer {mixer : VideoConfMix Node Buffer} (hcounted : Counted kinds mixer)
    {call : VideoCall Node} (hreset : ResetWithoutClients kinds mixer call) :
    Counted kinds (mixer.answer kinds call).2 := by
  cases call with
  | insert node => exact hcounted.doInsertNode kinds node
  | remove node => exact hcounted.doRemoveNode kinds node
  | reset exitErr =>
      simp only [VideoConfMix.answer, VideoConfMix.reset]
      split_ifs with herr
      · exact hcounted
      · obtain rfl := not_not.mp herr
        have hnone : mixer.mNodeList.countP (isRender kinds) = 0 := by
          simpa using hreset rfl
        exact { hcounted with clients := by simp [hnone], clients_le := Int.natCast_nonneg _ }

/-- The accounting law holds of exactly the sequences of calls in which every
reset that goes through finds no client in the list. -/
theorem videoAccountingLaw_iff (calls : List (VideoCall Node)) :
    VideoAccountingLaw kinds (create : VideoConfMix Node Buffer) calls ↔
      Promised (videoStep kinds) (ResetWithoutClients kinds)
        (create : VideoConfMix Node Buffer) calls := by
  have hstart := @create_counted Node Buffer kinds
  rw [VideoAccountingLaw, and_iff_right hstart.accounts]
  refine Promised.congr_unconditional (Counted kinds) ?_ ?_ hstart calls
  · intro mixer call hcounted
    constructor
    · rintro ⟨haccounts, -⟩ rfl
      have hnone : mixer.mNodeList.countP (isRender kinds) = 0 := by
        simpa [VideoConfMix.answer, VideoConfMix.reset] using haccounts.clients.symm
      simpa using hnone
    · intro hreset
      refine ⟨(hcounted.answer kinds hreset).accounts, ?_⟩
      rintro node - herr
      rcases doInsertNode_cases kinds mixer node with
        hsame | ⟨_, _, ⟨_, _, h⟩ | ⟨_, _, h⟩ | ⟨_, _, h⟩⟩
      · rw [hsame]
      all_goals exact absurd (congrArg Prod.fst h) herr
  · intro mixer call next hcounted hreset hstep
    obtain rfl := Option.some.inj hstep
    exact hcounted.answer kinds hreset

/-- Nodes that tell their type: `5` for a camera, `10` for a client and `20` for
an encoder, modulo a hundred. -/
def sampleKinds : VideoKinds Nat where
  nodeType node := node % 100
  nodeAIpCodec := 0
  nodeVIpRender := 10
  nodeVCameraSet := 5
  nodeVEncoder := 20
  render_ne_camera := by decide
  encoder_ne_zero := by decide

/-- A camera, an encoder and two clients join, the conference is reset, and two
more clients join: the list has six entries for four slots. -/
theorem videoAccountingLaw_fails_after_reset :
    ¬ VideoAccountingLaw sampleKinds (create : VideoConfMix Nat Unit)
      [.insert (some 105), .insert (some 120), .insert (some 110), .insert (some 210),
        .reset noError, .insert (some 310), .insert (some 410)] := by
  rintro ⟨-, halong⟩
  have hjoined := ((((halong.2 _ rfl).2 _ rfl).2 _ rfl).2 _ rfl).2 _ rfl
  have hlast := (hjoined.2 _ rfl).1
  exact absurd hlast.1.items (by decide)

end VideoConfMix

end McuProxy.Conf
