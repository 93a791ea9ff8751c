/-
# The audio conference

`AudioConfMix` keeps an ordered list of media nodes and, for each position of
the list, a slot with one received and one transmitted frame. A round of its
thread pulls a frame from every node, mixes all slots and pushes to every node
the mix of the others. Nodes, their types and what they answer to a pull come
from outside: a round takes the answers as an argument.

`joined` and `joins` are ghosts. They number the calls of `doInsertNode` so
that the order of insertion can be spoken of; no branch reads them.
-/

import McuProxy.Conf.MixFunc
import McuProxy.Math.StableInsert

namespace McuProxy.Conf

open McuProxy.Math

/-- `UNKNOWN_ERROR` of `status_t`. -/
def unknownError : Int := -2147483648

def maxVoipObject : Nat := 6

def maxMixObject : Nat := 8

/-- What the conference needs to know of `IMediaNode`: the type of each node,
and which value of `nodeType()` is `NODE_A_IP_CODEC`. -/
structure NodeKinds (Node : Type) where
  nodeType : Node → Int
  nodeAIpCodec : Int

/-- An entry of `mNodeList`, with the call that inserted it. -/
structure Member (Node : Type) where
  node : Node
  joined : Nat
  deriving DecidableEq

/-- What the code reads of a receive buffer besides its samples. The time is
optional metadata, and absent when the node did not set it. -/
structure RxMeta where
  quickData : Nat
  size : Nat
  ntpTime : Option Int

/-- The mixer. `audioIn i` and `audioOut i` are slot `i` of `AudioIn` and
`AudioOut`; their samples are `rxData` and `txData` of slot `i` of `mMetas`,
which the constructor makes them point to. `strong` is the strong-reference
count of each node. -/
structure AudioConfMix (Node : Type) where
  mNodeList : List (Member Node)
  mClientNum : Int
  mMixNum : Int
  strong : Node → Int
  audioIn : Nat → FastmixIo
  audioOut : Nat → FastmixIo
  rxMeta : Nat → RxMeta
  buffer : Nat → Int
  joins : Nat

namespace AudioConfMix

variable {Node : Type}

/-- The mixer after `create`: an empty list, zeroed frames, and arbitrary
contents of everything the constructor leaves alone. -/
def create (strong : Node → Int) (ampIn ampOut : Nat → FastmixVol) (rxMeta : Nat → RxMeta)
    (buffer : Nat → Int) : AudioConfMix Node where
  mNodeList := []
  mClientNum := 0
  mMixNum := 0
  strong := strong
  audioIn i := ⟨ampIn i, fun _ => 0⟩
  audioOut i := ⟨ampOut i, fun _ => 0⟩
  rxMeta := rxMeta
  buffer := buffer
  joins := 0

section Membership

variable [DecidableEq Node] (kinds : NodeKinds Node)

/-- The insertion of `doInsertNode`, before the first node of a larger type. -/
def enlist (mixer : AudioConfMix Node) (node : Node) : AudioConfMix Node :=
  { mixer with
    mNodeList := insertBefore (fun other => kinds.nodeType node < kinds.nodeType other.node)
      ⟨node, mixer.joins⟩ mixer.mNodeList
    strong := Function.update mixer.strong node (mixer.strong node + 1)
    joins := mixer.joins + 1 }

/-- `doInsertNode`. The limit on clients is tested after the node is in the
list: the break of that test leaves the block with the insertion done. -/
def doInsertNode (mixer : AudioConfMix Node) (node : Node) : Int × AudioConfMix Node :=
  if mixer.mNodeList.length ≥ maxMixObject then (unknownError, mixer)
  else
    let mixer := mixer.enlist kinds node
    if kinds.nodeType node = kinds.nodeAIpCodec then
      if mixer.mClientNum ≥ maxVoipObject then (unknownError, mixer)
      else (noError, { mixer with
        mClientNum := mixer.mClientNum + 1, mMixNum := mixer.mMixNum + 1 })
    else (noError, { mixer with mMixNum := mixer.mMixNum + 1 })

/-- `doRemoveNode`: the first entry of the node leaves the list, if there is
one. -/
def doRemoveNode (mixer : AudioConfMix Node) (node : Node) : Int × AudioConfMix Node :=
  if mixer.mNodeList.any (fun member => member.node = node) then
    (noError, { mixer with
      mNodeList := mixer.mNodeList.eraseP (fun member => member.node = node)
      strong := Function.update mixer.strong node (mixer.strong node - 1)
      mClientNum := if kinds.nodeType node = kinds.nodeAIpCodec then mixer.mClientNum - 1
        else mixer.mClientNum
      mMixNum := mixer.mMixNum - 1 })
  else (noError, mixer)

end Membership

/-- What a node answers to `pullMedia`: the returned status, and what it leaves
in the receive buffer, which is in place whether or not the pull succeeds. -/
structure Pull where
  ret : Int
  rxData : Nat → Int16
  rxMeta : RxMeta

/-- A frame handed to `pushMedia`. -/
structure Push (Node : Type) where
  node : Node
  data : Nat → Int16
  size : Nat
  ntpTime : Option Int

/-- The answer of a pull, stored into slot `i`. -/
def receive (mixer : AudioConfMix Node) (i : Nat) (pull : Pull) : AudioConfMix Node :=
  { mixer with
    audioIn := Function.update mixer.audioIn i { mixer.audioIn i with pAudioData := pull.rxData }
    rxMeta := Function.update mixer.rxMeta i pull.rxMeta }

/-- The gains of slot `i`. -/
def setAmp (mixer : AudioConfMix Node) (i : Nat) (ampIn ampOut : FastmixVol) :
    AudioConfMix Node :=
  { mixer with
    audioIn := Function.update mixer.audioIn i { mixer.audioIn i with amp := ampIn }
    audioOut := Function.update mixer.audioOut i { mixer.audioOut i with amp := ampOut } }

/-- The head of the loop: all slots are disabled. -/
def disableSlots (mixer : AudioConfMix Node) : AudioConfMix Node :=
  { mixer with
    audioIn := fun i => if i < maxMixObject then { mixer.audioIn i with amp := .mixDisable }
      else mixer.audioIn i
    audioOut := fun i => if i < maxMixObject then { mixer.audioOut i with amp := .mixDisable }
      else mixer.audioOut i }

/-- The gain of an input that answered with `quickData`: the node in position 0
is always heard, the others when their voice flag is set. -/
def pulledAmp (i quickData : Nat) : FastmixVol :=
  if i = 0 ∨ quickData = 1 then .mixKeep0dB else .mixDisable

/-- The loop over the nodes that pulls and sets the gains, from position `i` on,
left at the first failing pull. `ret` is the variable of that name, which no
pull has assigned while the list is empty. A slot past the arrays is
undefined. -/
def pullMembers (pulls : Nat → Pull) : List (Member Node) → Nat → Int → AudioConfMix Node →
    Option (Int × AudioConfMix Node)
  | [], _, ret, mixer => some (ret, mixer)
  | _ :: rest, i, _, mixer =>
      if i < maxMixObject then
        let pull := pulls i
        if pull.ret ≠ noError then some (pull.ret, mixer.receive i pull)
        else
          pullMembers pulls rest (i + 1) pull.ret
            ((mixer.receive i pull).setAmp i (pulledAmp i pull.rxMeta.quickData) .mixKeep0dB)
      else none

/-- The frames of the push loop: position `i` of the list gets slot `i`, with
the size and time of what position 0 delivered. -/
def pushMembers (mixer : AudioConfMix Node) : List (Push Node) :=
  mixer.mNodeList.zipIdx.map fun entry =>
    { node := entry.1.node
      data := (mixer.audioOut entry.2).pAudioData
      size := (mixer.rxMeta 0).size
      ntpTime := (mixer.rxMeta 0).ntpTime }

/-- The loopback of a conference without clients: the first two nodes are sent
each other's frames. With fewer than two nodes an iterator past the end is
dereferenced. -/
def loopback (pulls : Nat → Pull) (mixer : AudioConfMix Node) :
    Option (AudioConfMix Node × List (Push Node)) :=
  match mixer.mNodeList with
  | first :: second :: _ =>
      let mixer := (mixer.receive 0 (pulls 0)).receive 1 (pulls 1)
      let frame (member : Member Node) (i : Nat) : Push Node :=
        { node := member.node
          data := (mixer.audioIn i).pAudioData
          size := (mixer.rxMeta i).size
          ntpTime := (mixer.rxMeta i).ntpTime }
      some (mixer, [frame first 1, frame second 0])
  | _ => none

/-- One iteration of `threadLoop` that is not told to exit: the new state and
the frames pushed, in order. `ret` is the value the uninitialised variable of
that name starts with. -/
def threadRound (mSampleLen : Nat) (ret : Int) (pulls : Nat → Pull) (mixer : AudioConfMix Node) :
    Option (AudioConfMix Node × List (Push Node)) :=
  let mixer := mixer.disableSlots
  if mixer.mClientNum ≠ 0 then do
    let (ret, mixer) ← pullMembers pulls mixer.mNodeList 0 ret mixer
    if ret ≠ noError then
      return (mixer, [])
    let result ← mix maxMixObject mSampleLen (some mixer.audioIn) (some mixer.buffer) none
      (some mixer.audioOut)
    let mixer := { mixer with
      audioIn := result.pInput.getD mixer.audioIn
      buffer := result.buffer.getD mixer.buffer
      audioOut := result.pInter.getD mixer.audioOut }
    return (mixer, mixer.pushMembers)
  else mixer.loopback pulls

end AudioConfMix

end McuProxy.Conf
