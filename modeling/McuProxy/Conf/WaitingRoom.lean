/-
# The waiting room

`WaitingRoom` keeps the audio and the video nodes that wait in two lists, with a
counter for each and the client count of `IConfMix` for both. The player of the
music on hold is put first into the audio list by `initMixer` and is counted
nowhere.

A removal looks the node up in the list of its type. When it is not there the
list and its counter are left alone, but the client count is taken down all the
same.
-/

import McuProxy.Conf.AudioConfMix
import McuProxy.Math.Machine

namespace McuProxy.Conf

open McuProxy.Math

/-- `BAD_VALUE` of `status_t`. -/
def badValue : Int := -22

/-- What the waiting room needs to know of `IMediaNode`. -/
structure RoomKinds (Node : Type) extends NodeKinds Node where
  nodeVIpRender : Int
  nodeADriver : Int
  codec_ne_render : nodeAIpCodec ≠ nodeVIpRender
  driver_ne_codec : nodeADriver ≠ nodeAIpCodec

/-- The player that `MOHPlayer::create` makes; `nodeType` of its class is
`NODE_A_DRIVER`. -/
def MOHPlayer {Node : Type} (kinds : RoomKinds Node) : Type :=
  { node : Node // kinds.nodeType node = kinds.nodeADriver }

/-- The room. `strong` is the strong-reference count of each node. -/
structure WaitingRoom (Node : Type) where
  mMedia : Option Node
  mAudioNum : Int
  mVideoNum : Int
  mClientNum : Int
  mVideoList : List Node
  mAudioList : List Node
  strong : Node → Int

namespace WaitingRoom

variable {Node : Type} [DecidableEq Node] (kinds : RoomKinds Node)

/-- The constructor, on nodes with the given reference counts. -/
def new (strong : Node → Int) : WaitingRoom Node where
  mMedia := none
  mAudioNum := 0
  mVideoNum := 0
  mClientNum := 0
  mVideoList := []
  mAudioList := []
  strong := strong

def incStrong (room : WaitingRoom Node) (node : Node) : WaitingRoom Node :=
  { room with strong := Function.update room.strong node (room.strong node + 1) }

def decStrong (room : WaitingRoom Node) (node : Node) : WaitingRoom Node :=
  { room with strong := Function.update room.strong node (room.strong node - 1) }

/-- `initMixer`, where `MOHPlayer::create` answers `media`. -/
def initMixer (room : WaitingRoom Node) : Option (MOHPlayer kinds) → Int × WaitingRoom Node
  | none => (unknownError, { room with mMedia := none })
  | some media =>
      let room := { room with mMedia := some media.1 }.incStrong media.1
      (noError, { room with mAudioList := media.1 :: room.mAudioList })

/-- `doInsertNode`: nodes of other types are accepted and ignored. -/
def doInsertNode (room : WaitingRoom Node) : Option Node → Int × WaitingRoom Node
  | none => (badValue, room)
  | some node =>
      if kinds.nodeType node = kinds.nodeAIpCodec then
        let room := room.incStrong node
        (noError, { room with
          mAudioList := room.mAudioList ++ [node]
          mAudioNum := room.mAudioNum + 1
          mClientNum := room.mClientNum + 1 })
      else if kinds.nodeType node = kinds.nodeVIpRender then
        let room := room.incStrong node
        (noError, { room with
          mVideoList := room.mVideoList ++ [node]
          mVideoNum := room.mVideoNum + 1
          mClientNum := room.mClientNum + 1 })
      else (noError, room)

/-- What is done to the audio list when a codec leaves. -/
def leaveAudio (room : WaitingRoom Node) (node : Node) : WaitingRoom Node :=
  if node ∈ room.mAudioList then
    { room.decStrong node with
      mAudioList := room.mAudioList.erase node, mAudioNum := room.mAudioNum - 1 }
  else room

/-- What is done to the video list when a render leaves. -/
def leaveVideo (room : WaitingRoom Node) (node : Node) : WaitingRoom Node :=
  if node ∈ room.mVideoList then
    { room.decStrong node with
      mVideoList := room.mVideoList.erase node, mVideoNum := room.mVideoNum - 1 }
  else room

/-- `doRemoveNode`. The client count is taken down whether or not the node was
found. -/
def doRemoveNode (room : WaitingRoom Node) : Option Node → Int × WaitingRoom Node
  | none => (badValue, room)
  | some node =>
      if kinds.nodeType node = kinds.nodeAIpCodec then
        let room := room.leaveAudio node
        (noError, { room with mClientNum := room.mClientNum - 1 })
      else if kinds.nodeType node = kinds.nodeVIpRender then
        let room := room.leaveVideo node
        (noError, { room with mClientNum := room.mClientNum - 1 })
      else (badValue, room)

inductive RoomCall (Node : Type)
  | insert (node : Option Node)
  | remove (node : Option Node)

/-- One call as a step of a machine. -/
def roomStep (room : WaitingRoom Node) : RoomCall Node → Option (WaitingRoom Node)
  | .insert node => some (room.doInsertNode kinds node).2
  | .remove node => some (room.doRemoveNode kinds node).2

/-- The counters count the lists, less the player, which stays first. -/
structure RoomAccounts (media : Node) (room : WaitingRoom Node) : Prop where
  audio : room.mAudioNum = room.mAudioList.length - 1
  video : room.mVideoNum = room.mVideoList.length
  clients : room.mClientNum = room.mAudioNum + room.mVideoNum
  moh : room.mAudioList.head? = some media

/-- The three counters of two rooms agree. -/
structure SameCounters (before after : WaitingRoom Node) : Prop where
  audio : after.mAudioNum = before.mAudioNum
  video : after.mVideoNum = before.mVideoNum
  clients : after.mClientNum = before.mClientNum

/-- The accounting law of a sequence of calls: the accounts are right at the
start and after every call, and the removal of a node that is in neither list
changes no counter. -/
def RoomLaw (media : Node) (room : WaitingRoom Node) (calls : List (RoomCall Node)) : Prop :=
  RoomAccounts media room ∧
    Promised (roomStep kinds) (fun room call =>
      (∀ next, room.roomStep kinds call = some next → RoomAccounts media next) ∧
        ∀ node, call = .remove (some node) → node ∉ room.mAudioList → node ∉ room.mVideoList →
          SameCounters room (room.doRemoveNode kinds (some node)).2) room calls

/-- A codec that is removed waits in the audio list, and a render in the video
list. -/
def RemovesMember (room : WaitingRoom Node) (call : RoomCall Node) : Prop :=
  ∀ node, call = .remove (some node) →
    (kinds.nodeType node = kinds.nodeAIpCodec → node ∈ room.mAudioList) ∧
      (kinds.nodeType node = kinds.nodeVIpRender → node ∈ room.mVideoList)

theorem initMixer_accounts (strong : Node → Int) (media : MOHPlayer kinds) :
    RoomAccounts media.1 ((new strong).initMixer kinds (some media)).2 :=
  ⟨rfl, rfl, rfl, rfl⟩

/-- A node that joins is appended and counted twice. -/
theorem RoomAccounts.doInsertNode {media : Node} {room : WaitingRoom Node}
    (haccounts : RoomAccounts media room) (node : Option Node) :
    RoomAccounts media (room.doInsertNode kinds node).2 := by
  obtain ⟨haudio, hvideo, hclients, hmoh⟩ := haccounts
  cases node with
  | none => exact ⟨haudio, hvideo, hclients, hmoh⟩
  | some node =>
      simp only [WaitingRoom.doInsertNode]
      split_ifs with hcodec hrender
      · refine ⟨?_, hvideo, ?_, ?_⟩
        · simp [incStrong, haudio]
        · simp only [incStrong, hclients]
          omega
        · simp [incStrong, List.head?_append, hmoh]
      · refine ⟨haudio, ?_, ?_, hmoh⟩
        · simp [incStrong, hvideo]
        · simp only [incStrong, hclients]
          omega
      · exact ⟨haudio, hvideo, hclients, hmoh⟩

/-- A codec found in the audio list is not the player, so the player stays
first. -/
theorem leaveAudio_accounts (media : MOHPlayer kinds) {room : WaitingRoom Node}
    (haccounts : RoomAccounts media.1 room) {node : Node}
    (hcodec : kinds.nodeType node = kinds.nodeAIpCodec) (hmember : node ∈ room.mAudioList) :
    RoomAccounts media.1
      { room.leaveAudio node with mClientNum := (room.leaveAudio node).mClientNum - 1 } := by
  obtain ⟨haudio, hvideo, hclients, hmoh⟩ := haccounts
  have hother : media.1 ≠ node := by
    rintro rfl
    exact kinds.driver_ne_codec (media.2.symm.trans hcodec)
  obtain ⟨rest, hlist⟩ := List.head?_eq_some_iff.mp hmoh
  have hrest : node ∈ rest := by simpa [hlist, hother.symm] using hmember
  have herase : room.mAudioList.erase node = media.1 :: rest.erase node := by
    rw [hlist, List.erase_cons_tail (by simpa using hother)]
  have hlength := List.length_erase_add_one hrest
  simp only [hlist, List.length_cons] at haudio
  refine ⟨?_, ?_, ?_, ?_⟩
  · simp only [leaveAudio, hmember, if_true, herase, List.length_cons]
    omega
  · simpa [leaveAudio, hmember, decStrong] using hvideo
  · simp only [leaveAudio, hmember, if_true, decStrong, hclients]
    omega
  · simp [leaveAudio, hmember, herase]

theorem leaveVideo_accounts {media : Node} {room : WaitingRoom Node}
    (haccounts : RoomAccounts media room) {node : Node} (hmember : node ∈ room.mVideoList) :
    RoomAccounts media
      { room.leaveVideo node with mClientNum := (room.leaveVideo node).mClientNum - 1 } := by
  obtain ⟨haudio, hvideo, hclients, hmoh⟩ := haccounts
  have hlength := List.length_erase_add_one hmember
  refine ⟨?_, ?_, ?_, ?_⟩
  · simpa [leaveVideo, hmember, decStrong] using haudio
  · simp only [leaveVideo, hmember, if_true]
    omega
  · simp only [leaveVideo, hmember, if_true, decStrong, hclients]
    omega
  · simpa [leaveVideo, hmember, decStrong] using hmoh

/-- A removal keeps the accounts when the node is where its type says. -/
theorem doRemoveNode_roomAccounts (media : MOHPlayer kinds) {room : WaitingRoom Node}
    (haccounts : RoomAccounts media.1 room) {node : Option Node}
    (hmember : RemovesMember kinds room (.remove node)) :
    RoomAccounts media.1 (room.doRemoveNode kinds node).2 := by
  cases node with
  | none => exact haccounts
  | some node =>
      simp only [doRemoveNode]
      split_ifs with hcodec hrender
      · exact leaveAudio_accounts kinds media haccounts hcodec ((hmember node rfl).1 hcodec)
      · exact leaveVideo_accounts haccounts ((hmember node rfl).2 hrender)
      · exact haccounts

/-- A client that is not found is discounted without leaving any list. -/
theorem doRemoveNode_absent {room : WaitingRoom Node} {node : Node}
    (habsent : (kinds.nodeType node = kinds.nodeAIpCodec ∧ node ∉ room.mAudioList) ∨
      (kinds.nodeType node = kinds.nodeVIpRender ∧ node ∉ room.mVideoList)) :
    (room.doRemoveNode kinds (some node)).2 =
      { room with mClientNum := room.mClientNum - 1 } := by
  rcases habsent with ⟨htype, hnot⟩ | ⟨htype, hnot⟩
  · simp [doRemoveNode, htype, leaveAudio, hnot]
  · simp [doRemoveNode, htype, kinds.codec_ne_render.symm, leaveVideo, hnot]

theorem RoomAccounts.roomStep (media : MOHPlayer kinds) {room next : WaitingRoom Node}
    (haccounts : RoomAccounts media.1 room) {call : RoomCall Node}
    (hmember : RemovesMember kinds room call) (hstep : room.roomStep kinds call = some next) :
    RoomAccounts media.1 next := by
  cases call with
  | insert node =>
      obtain rfl := Option.some.inj hstep
      exact haccounts.doInsertNode kinds node
  | remove node =>
      obtain rfl := Option.some.inj hstep
      exact doRemoveNode_roomAccounts kinds media haccounts hmember

/-- The accounting law holds of exactly the sequences of calls in which every
client that is removed is in the list of its type. -/
theorem roomLaw_iff (strong : Node → Int) (media : MOHPlayer kinds)
    (calls : List (RoomCall Node)) :
    RoomLaw kinds media.1 ((new strong).initMixer kinds (some media)).2 calls ↔
      Promised (WaitingRoom.roomStep kinds) (RemovesMember kinds)
        ((new strong).initMixer kinds (some media)).2 calls := by
  have hstart := initMixer_accounts kinds strong media
  rw [RoomLaw, and_iff_right hstart]
  refine Promised.congr_unconditional (RoomAccounts media.1) ?_ ?_ hstart calls
  · intro room call haccounts
    constructor
    · rintro ⟨hnext, -⟩ node rfl
      -- a removal that finds nothing would leave the client count one short
      have hfound : ¬ ((kinds.nodeType node = kinds.nodeAIpCodec ∧ node ∉ room.mAudioList) ∨
          (kinds.nodeType node = kinds.nodeVIpRender ∧ node ∉ room.mVideoList)) := by
        intro habsent
        have hafter := (hnext _ rfl).clients
        rw [doRemoveNode_absent kinds habsent] at hafter
        have hbefore := haccounts.clients
        dsimp only at hafter
        omega
      simpa only [not_or, not_and_not_right] using hfound
    · intro hmember
      refine ⟨fun next => haccounts.roomStep kinds media hmember, ?_⟩
      rintro node rfl haudio hvideo
      have hcodec := mt (hmember node rfl).1 haudio
      have hrender := mt (hmember node rfl).2 hvideo
      simp only [doRemoveNode, hcodec, hrender, if_false]
      exact ⟨rfl, rfl, rfl⟩
  · intro room call next haccounts hmember hstep
    exact haccounts.roomStep kinds media hmember hstep

/-- The types of the nodes of an example room: `1` for the player, `3` for a
codec and `7` for a render, modulo ten. -/
def sampleRoomKinds : RoomKinds Nat where
  nodeType node := node % 10
  nodeAIpCodec := 3
  nodeVIpRender := 7
  nodeADriver := 1
  codec_ne_render := by decide
  driver_ne_codec := by decide

/-- One codec waits and another one, which never joined, is removed: the client
count drops to zero with one node waiting. -/
theorem roomLaw_fails_at_stranger :
    ¬ RoomLaw sampleRoomKinds 11
      ((new fun _ => 1).initMixer sampleRoomKinds (some ⟨11, rfl⟩)).2
      [.insert (some 13), .remove (some 23)] := by
  rintro ⟨-, halong⟩
  have hlast := ((halong.2 _ rfl).1.1 _ rfl).clients
  exact absurd hlast (by decide)

end WaitingRoom

end McuProxy.Conf
