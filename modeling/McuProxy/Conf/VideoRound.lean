/-
# Rounds of the video conference

A round of `threadLoop` pulls under the lock, hands buffers from slot to slot
without it, and pushes under the lock again. Slots belong to positions of the
list, and their buffers stay in them from round to round: the pull clears what
it receives for the nodes of the list, and nothing clears what is sent. Nodes
join and leave between the two locked phases, and the only thing the push
compares with the pull are two offsets.

A buffer is known here by the round in which it was pulled and the node it came
from. What a push hands out is then determined by the slots as the pull left
them, by how often the loop over the clients ran, and by the list at the push.
-/

import McuProxy.Conf.VideoConfMix

namespace McuProxy.Conf

open McuProxy.Math

/-- A buffer, told apart from the others by where and when it was pulled. -/
structure Media (Node : Type) where
  round : Nat
  source : Node
  deriving DecidableEq

/-- Where the thread is in `threadLoop`, with its local variables. -/
inductive Phase
  | idle
  | mixing (offsetDec offsetEnc : Int) (i : Nat)
  | mixed (offsetDec offsetEnc : Int) (i : Nat)

/-- The mixer and its thread. The rounds are counted, and the mixer is kept as
the last pull left it; neither is there in the program. -/
structure VideoLoop (Node : Type) where
  mixer : VideoConfMix Node (Media Node)
  phase : Phase
  round : Nat
  pulled : VideoConfMix Node (Media Node)

namespace VideoLoop

open VideoConfMix

variable {Node : Type}

/-- The thread before its first round. -/
def create : VideoLoop Node where
  mixer := VideoConfMix.create
  phase := .idle
  round := 0
  pulled := VideoConfMix.create

/-- The pull loop from position `i` on. `fills` says which nodes have a buffer;
the others leave the null pointer they were given. -/
def pullMembers (round : Nat) (fills : Nat → Bool) :
    List Node → Nat → (Nat → MixMeta (Media Node)) → Nat → MixMeta (Media Node)
  | [], _, metas => metas
  | node :: members, i, metas =>
      pullMembers round fills members (i + 1) (Function.update metas i
        { metas i with rxBuffer := if fills i then some ⟨round, node⟩ else none })

/-- The push loop from position `i` on: which node is given what. -/
def pushMembers (metas : Nat → MixMeta (Media Node)) :
    List Node → Nat → List (Node × Option (Media Node))
  | [], _ => []
  | node :: members, i => (node, (metas i).txBuffer) :: pushMembers metas members (i + 1)

/-- The first locked phase. -/
def pull (loop : VideoLoop Node) (fills : Nat → Bool) : VideoLoop Node :=
  let round := loop.round + 1
  let mixer := { loop.mixer with
    mMetas := pullMembers round fills loop.mixer.mNodeList 0 loop.mixer.mMetas }
  { mixer := mixer
    phase := .mixing mixer.mCameraNum (mixer.mCameraNum + mixer.mClientNum) 0
    round := round
    pulled := mixer }

/-- One turn of the loop over the clients. The number of clients is read without
the lock, each time anew; the last turn goes on to the encoder. -/
def mix (loop : VideoLoop Node) (offsetDec offsetEnc : Int) (i : Nat) : VideoLoop Node :=
  let metas := loop.mixer.mMetas
  if i < loop.mixer.mClientNum then
    let slot := (offsetDec + i).toNat
    { loop with
      mixer := { loop.mixer with
        mMetas := Function.update metas slot
          { metas slot with txBuffer := (metas offsetEnc.toNat).rxBuffer } }
      phase := .mixing offsetDec offsetEnc (i + 1) }
  else if offsetDec ≠ 0 then
    let slot := offsetEnc.toNat
    { loop with
      mixer := { loop.mixer with
        mMetas := Function.update metas slot
          { metas slot with txBuffer := (metas 0).rxBuffer } }
      phase := .mixed offsetDec offsetEnc i }
  else { loop with phase := .mixed offsetDec offsetEnc i }

/-- The test for a change before the push. -/
def changed (loop : VideoLoop Node) (offsetDec offsetEnc : Int) : Bool :=
  offsetDec ≠ loop.mixer.mCameraNum ∨ offsetEnc ≠ loop.mixer.mCameraNum + loop.mixer.mClientNum

/-- What the second locked phase pushes, and to whom. -/
def pushed (loop : VideoLoop Node) : List (Node × Option (Media Node)) :=
  match loop.phase with
  | .mixed offsetDec offsetEnc _ =>
      if loop.changed offsetDec offsetEnc then []
      else pushMembers loop.mixer.mMetas loop.mixer.mNodeList 0
  | _ => []

/-- The calls of other threads and the moves of the mixer's own. -/
inductive LoopCall (Node : Type)
  | insert (node : Option Node)
  | remove (node : Option Node)
  | pull (fills : Nat → Bool)
  | mix
  | push

variable (kinds : VideoKinds Node)

/-- One step. The thread makes its moves in order, and the lists change at any
time. -/
def loopStep [DecidableEq Node] (loop : VideoLoop Node) : LoopCall Node → Option (VideoLoop Node)
  | .insert node => some { loop with mixer := (loop.mixer.doInsertNode kinds node).2 }
  | .remove node => some { loop with mixer := (loop.mixer.doRemoveNode kinds node).2 }
  | .pull fills =>
      match loop.phase with
      | .idle => some (loop.pull fills)
      | _ => none
  | .mix =>
      match loop.phase with
      | .mixing offsetDec offsetEnc i => some (loop.mix offsetDec offsetEnc i)
      | _ => none
  | .push =>
      match loop.phase with
      | .mixed _ _ _ => some { loop with phase := .idle }
      | _ => none

/-! ## What may be pushed -/

/-- A buffer that a node may be given: it was pulled in this round from a node
that is in the list; for a client that node is the encoder, and for the encoder
it is the camera. -/
structure Admissible (loop : VideoLoop Node) (node : Node) (buffer : Media Node) : Prop where
  round : buffer.round = loop.round
  source : buffer.source ∈ loop.mixer.mNodeList
  client : kinds.nodeType node = kinds.nodeVIpRender →
    kinds.nodeType buffer.source = kinds.nodeVEncoder
  encoder : kinds.nodeType node = kinds.nodeVEncoder →
    kinds.nodeType buffer.source = kinds.nodeVCameraSet

/-- Whatever is pushed may be pushed. -/
def PushLaw (loop : VideoLoop Node) (call : LoopCall Node) : Prop :=
  call = .push → ∀ node buffer, (node, some buffer) ∈ loop.pushed →
    Admissible kinds loop node buffer

/-- A node that joins is of one of the three types of a video conference. -/
def VideoNodes (_ : VideoLoop Node) (call : LoopCall Node) : Prop :=
  ∀ node, call = .insert (some node) → kinds.nodeType node = kinds.nodeVIpRender ∨
    kinds.nodeType node = kinds.nodeVCameraSet ∨ kinds.nodeType node = kinds.nodeVEncoder

/-- The slots are clean for a push to the present list, when the pull found the
offsets `dec` and `enc` and the loop over the clients ran `i` times. -/
structure Clean (loop : VideoLoop Node) (dec enc i : Nat) : Prop where
  /-- Nothing is left in the slot whose buffer the camera is given. -/
  camera : dec ≠ 0 → (loop.pulled.mMetas 0).txBuffer = none
  /-- For a client that the loop reached: the slot of the encoder is empty, or the
  pull filled it and the encoder is still there. For another one: nothing is left
  in its slot. -/
  clients : ∀ k, dec ≤ k → k < enc →
    if k < dec + i then (loop.pulled.mMetas enc).rxBuffer = none ∨
      ∃ encoder ∈ loop.mixer.mNodeList, loop.pulled.mNodeList[enc]? = some encoder
    else (loop.pulled.mMetas k).txBuffer = none
  /-- With a camera at the pull: it had no buffer, or it is still there. Without
  one: nothing is left in the slot of the encoder, and the loop did not hand the
  encoder its own buffer. -/
  encoder : loop.mixer.mEncoderNum ≠ 0 →
    if dec ≠ 0 then (loop.pulled.mMetas 0).rxBuffer = none ∨
      ∃ camera ∈ loop.mixer.mNodeList, loop.pulled.mNodeList[0]? = some camera
    else if enc < i then (loop.pulled.mMetas enc).rxBuffer = none
    else (loop.pulled.mMetas enc).txBuffer = none

/-- A push that is not given up finds clean slots. -/
def CleanPush (loop : VideoLoop Node) (call : LoopCall Node) : Prop :=
  ∀ offsetDec offsetEnc i, call = .push → loop.phase = .mixed offsetDec offsetEnc i →
    loop.changed offsetDec offsetEnc = false → Clean loop offsetDec.toNat offsetEnc.toNat i

/-! ## The list in order -/

/-- What every reachable list satisfies: its counters count it, it is ordered by
type, and there are only the three types. -/
structure Listed {Buffer : Type} (mixer : VideoConfMix Node Buffer) : Prop where
  counted : Counted kinds mixer
  sorted : mixer.mNodeList.Pairwise fun first second =>
    kinds.nodeType first ≤ kinds.nodeType second
  typed : ∀ node ∈ mixer.mNodeList, kinds.nodeType node = kinds.nodeVIpRender ∨
    kinds.nodeType node = kinds.nodeVCameraSet ∨ kinds.nodeType node = kinds.nodeVEncoder

section Order

variable {kinds} {Buffer : Type} {mixer : VideoConfMix Node Buffer}

theorem enlisted_sorted (hlisted : Listed kinds mixer) (node : Node) :
    (mixer.enlisted kinds node).Pairwise fun first second =>
      kinds.nodeType first ≤ kinds.nodeType second := by
  apply insertBefore_pairwise hlisted.sorted
  · intro other _ hbehind
    exact (of_decide_eq_true hbehind).le
  · intro other _ hbefore
    exact not_lt.mp (of_decide_eq_false hbefore)
  · intro first _ second _ hle hbehind
    exact decide_eq_true ((of_decide_eq_true hbehind).trans_le hle)

theorem Listed.doInsertNode (hlisted : Listed kinds mixer) {node : Option Node}
    (htyped : ∀ member, node = some member → kinds.nodeType member = kinds.nodeVIpRender ∨
      kinds.nodeType member = kinds.nodeVCameraSet ∨ kinds.nodeType member = kinds.nodeVEncoder) :
    Listed kinds (mixer.doInsertNode kinds node).2 := by
  have hcounted := hlisted.counted.doInsertNode kinds node
  rcases doInsertNode_cases kinds mixer node with hsame | ⟨member, rfl, hkind⟩
  · rw [hsame]
    exact hlisted
  · have hlist : (mixer.doInsertNode kinds (some member)).2.mNodeList =
        mixer.enlisted kinds member := by
      rcases hkind with ⟨-, -, h⟩ | ⟨-, -, h⟩ | ⟨-, -, h⟩ <;> rw [h]
    refine ⟨hcounted, hlist ▸ enlisted_sorted hlisted member, fun other hother => ?_⟩
    rw [hlist, enlisted, mem_insertBefore] at hother
    rcases hother with rfl | hother
    · exact htyped other rfl
    · exact hlisted.typed other hother

theorem Listed.doRemoveNode [DecidableEq Node] (hlisted : Listed kinds mixer) (node : Option Node) :
    Listed kinds (mixer.doRemoveNode kinds node).2 := by
  have hcounted := hlisted.counted.doRemoveNode kinds node
  rcases doRemoveNode_cases kinds mixer node with hsame | ⟨member, -, rfl, hkind⟩
  · rw [hsame]
    exact hlisted
  · have hlist : (mixer.doRemoveNode kinds (some member)).2.mNodeList =
        mixer.mNodeList.erase member := by
      rcases hkind with ⟨-, h⟩ | ⟨-, h⟩ | ⟨-, h⟩ <;> rw [h]
    refine ⟨hcounted, hlist ▸ hlisted.sorted.sublist List.erase_sublist, fun other hother => ?_⟩
    rw [hlist] at hother
    exact hlisted.typed other (List.mem_of_mem_erase hother)

variable (hcamera : kinds.nodeVCameraSet < kinds.nodeVIpRender)
  (hrender : kinds.nodeVIpRender < kinds.nodeVEncoder)

include hcamera hrender in
/-- A test that tells the cameras from the others counts the cameras. -/
theorem Listed.countP_cameras (hlisted : Listed kinds mixer) (test : Node → Bool)
    (htest : ∀ node, kinds.nodeType node ≤ kinds.nodeVCameraSet ∨
      kinds.nodeVIpRender ≤ kinds.nodeType node →
      (test node = true ↔ kinds.nodeType node < kinds.nodeVIpRender)) :
    mixer.mNodeList.countP test = mixer.mCameraNum := by
  rw [hlisted.counted.cameras]
  refine List.countP_congr fun node hnode => ?_
  have htyped := hlisted.typed node hnode
  rw [htest node (by omega), isCamera_iff]
  omega

include hcamera hrender in
/-- A test that tells the encoders from the others counts the others. -/
theorem Listed.countP_others (hlisted : Listed kinds mixer) (test : Node → Bool)
    (htest : ∀ node, kinds.nodeType node ≤ kinds.nodeVIpRender ∨
      kinds.nodeVEncoder ≤ kinds.nodeType node →
      (test node = true ↔ kinds.nodeType node < kinds.nodeVEncoder)) :
    mixer.mNodeList.countP test = mixer.mCameraNum + mixer.mClientNum := by
  have hcongr : mixer.mNodeList.countP test =
      mixer.mNodeList.countP fun node => !isOther kinds node := by
    refine List.countP_congr fun node hnode => ?_
    have htyped := hlisted.typed node hnode
    rw [htest node (by omega), Bool.not_eq_true', Bool.eq_false_iff, ne_eq, isOther_iff]
    omega
  have hlength := length_eq_kinds kinds mixer.mNodeList
  have hsplit := List.length_eq_countP_add_countP (isOther kinds) (l := mixer.mNodeList)
  have hclients := hlisted.counted.clients
  have hcameras := hlisted.counted.cameras
  simp only [Bool.not_eq_true, Bool.decide_eq_false] at hsplit
  omega

include hcamera hrender in
/-- The list begins with the cameras, and the encoders are behind the clients. -/
theorem Listed.position (hlisted : Listed kinds mixer) {k : Nat} {node : Node}
    (hnode : mixer.mNodeList[k]? = some node) :
    (kinds.nodeType node = kinds.nodeVCameraSet ∧ k < mixer.mCameraNum) ∨
    (kinds.nodeType node = kinds.nodeVIpRender ∧ mixer.mCameraNum ≤ k ∧
      k < mixer.mCameraNum + mixer.mClientNum) ∨
    (kinds.nodeType node = kinds.nodeVEncoder ∧ mixer.mCameraNum + mixer.mClientNum ≤ k) := by
  obtain ⟨hlow, hhigh⟩ := countP_key_bounds hlisted.sorted hnode
  rcases hlisted.typed node (List.mem_of_getElem? hnode) with htype | htype | htype <;>
    rw [htype] at hlow hhigh
  · have hbefore := hlisted.countP_cameras hcamera hrender
      (fun other => decide (kinds.nodeType other < kinds.nodeVIpRender)) (by simp)
    have hupto := hlisted.countP_others hcamera hrender
      (fun other => decide (kinds.nodeType other ≤ kinds.nodeVIpRender))
      (by intro other; simp; omega)
    exact .inr (.inl ⟨htype, by omega, by omega⟩)
  · have hupto := hlisted.countP_cameras hcamera hrender
      (fun other => decide (kinds.nodeType other ≤ kinds.nodeVCameraSet))
      (by intro other; simp; omega)
    exact .inl ⟨htype, by omega⟩
  · have hbefore := hlisted.countP_others hcamera hrender
      (fun other => decide (kinds.nodeType other < kinds.nodeVEncoder)) (by simp)
    exact .inr (.inr ⟨htype, by omega⟩)

end Order

/-! ## The slots of a round -/

section Slots

variable (round : Nat) (fills : Nat → Bool)

/-- A pull leaves alone what is to be sent. -/
theorem pullMembers_txBuffer (members : List Node) (i : Nat)
    (metas : Nat → MixMeta (Media Node)) (k : Nat) :
    (pullMembers round fills members i metas k).txBuffer = (metas k).txBuffer := by
  induction members generalizing i metas with
  | nil => rfl
  | cons node members ih =>
      rw [pullMembers, ih]
      by_cases hk : k = i
      · subst hk
        simp
      · simp [hk]

/-- A pull leaves alone the slots of other positions. -/
theorem pullMembers_outside (members : List Node) {i k : Nat}
    (hk : k < i ∨ i + members.length ≤ k) (metas : Nat → MixMeta (Media Node)) :
    pullMembers round fills members i metas k = metas k := by
  induction members generalizing i metas with
  | nil => rfl
  | cons node members ih =>
      simp only [List.length_cons] at hk
      rw [pullMembers, ih (by omega), Function.update_of_ne (by omega)]

/-- A position of the list is cleared, and filled with what its node has. -/
theorem pullMembers_rxBuffer {members : List Node} {j : Nat} {node : Node}
    (hnode : members[j]? = some node) (i : Nat) (metas : Nat → MixMeta (Media Node)) :
    (pullMembers round fills members i metas (i + j)).rxBuffer =
      if fills (i + j) then some ⟨round, node⟩ else none := by
  induction members generalizing i j metas with
  | nil => simp at hnode
  | cons first members ih =>
      rw [pullMembers]
      cases j with
      | zero =>
          obtain rfl : first = node := by simpa using hnode
          rw [pullMembers_outside _ _ _ (by omega)]
          simp
      | succ j =>
          have hnext := ih (by simpa using hnode) (i + 1) (Function.update metas i
            { metas i with rxBuffer := if fills i then some ⟨round, first⟩ else none })
          rwa [Nat.add_right_comm] at hnext

theorem mem_pushMembers {metas : Nat → MixMeta (Media Node)} {members : List Node} {i : Nat}
    {node : Node} {buffer : Option (Media Node)} :
    (node, buffer) ∈ pushMembers metas members i ↔
      ∃ k, members[k]? = some node ∧ (metas (i + k)).txBuffer = buffer := by
  induction members generalizing i with
  | nil => simp [pushMembers]
  | cons first members ih =>
      rw [pushMembers, List.mem_cons, ih]
      constructor
      · rintro (heq | ⟨k, hk, hbuffer⟩)
        · obtain ⟨rfl, rfl⟩ := Prod.mk.inj heq
          exact ⟨0, rfl, rfl⟩
        · rw [Nat.add_right_comm] at hbuffer
          exact ⟨k + 1, hk, hbuffer⟩
      · rintro ⟨k, hk, hbuffer⟩
        cases k with
        | zero =>
            obtain rfl : first = node := by simpa using hk
            exact .inl (Prod.ext rfl hbuffer.symm)
        | succ k => exact .inr ⟨k, hk, by rwa [Nat.add_right_comm]⟩

end Slots

/-- The slots right after a pull: the positions of the list hold what was pulled
in this round, and everything else is older. -/
structure Fresh (round : Nat) (mixer : VideoConfMix Node (Media Node)) : Prop where
  listed : Listed kinds mixer
  pulled : ∀ k node buffer, mixer.mNodeList[k]? = some node →
    (mixer.mMetas k).rxBuffer = some buffer → buffer = ⟨round, node⟩
  received : ∀ k buffer, mixer.mNodeList.length ≤ k →
    (mixer.mMetas k).rxBuffer = some buffer → buffer.round < round
  sent : ∀ k buffer, (mixer.mMetas k).txBuffer = some buffer → buffer.round < round

/-- The slots after `i` turns of the loop over the clients. -/
def served (metas : Nat → MixMeta (Media Node)) (dec enc i : Nat) (k : Nat) :
    MixMeta (Media Node) :=
  if dec ≤ k ∧ k < dec + i then { metas k with txBuffer := (metas enc).rxBuffer } else metas k

/-- The slots at the end of the mix. -/
def routed (metas : Nat → MixMeta (Media Node)) (dec enc i : Nat) (k : Nat) :
    MixMeta (Media Node) :=
  if dec ≠ 0 ∧ k = enc then { metas k with txBuffer := (metas 0).rxBuffer }
  else served metas dec enc i k

/-- What the slots hold in each phase. -/
def InPhase (loop : VideoLoop Node) : Phase → Prop
  | .idle => ∀ k buffer, (loop.mixer.mMetas k).txBuffer = some buffer ∨
      (loop.mixer.mMetas k).rxBuffer = some buffer → buffer.round ≤ loop.round
  | .mixing offsetDec offsetEnc i => Fresh kinds loop.round loop.pulled ∧
      offsetDec = loop.pulled.mCameraNum ∧
      offsetEnc = loop.pulled.mCameraNum + loop.pulled.mClientNum ∧
      loop.mixer.mMetas = served loop.pulled.mMetas offsetDec.toNat offsetEnc.toNat i
  | .mixed offsetDec offsetEnc i => Fresh kinds loop.round loop.pulled ∧
      offsetDec = loop.pulled.mCameraNum ∧
      offsetEnc = loop.pulled.mCameraNum + loop.pulled.mClientNum ∧
      loop.mixer.mMetas = routed loop.pulled.mMetas offsetDec.toNat offsetEnc.toNat i

/-- What holds between any two steps. -/
structure LoopInv (loop : VideoLoop Node) : Prop where
  listed : Listed kinds loop.mixer
  phase : InPhase kinds loop loop.phase

/-! ## Steps -/

section Steps

variable {kinds} {loop : VideoLoop Node}

theorem create_inv : LoopInv kinds (create : VideoLoop Node) :=
  ⟨⟨create_counted kinds, List.Pairwise.nil, by simp [create, VideoConfMix.create]⟩,
    by simp [InPhase, create, VideoConfMix.create]⟩

/-- The order of the list does not depend on the slots. -/
theorem Listed.withMetas {Buffer : Type} {mixer : VideoConfMix Node Buffer}
    (hlisted : Listed kinds mixer) (metas : Nat → MixMeta Buffer) :
    Listed kinds { mixer with mMetas := metas } :=
  ⟨{ hlisted.counted with }, hlisted.sorted, hlisted.typed⟩

theorem doInsertNode_mMetas (mixer : VideoConfMix Node (Media Node)) (node : Option Node) :
    (mixer.doInsertNode kinds node).2.mMetas = mixer.mMetas := by
  rcases doInsertNode_cases kinds mixer node with h | ⟨_, -, ⟨-, -, h⟩ | ⟨-, -, h⟩ | ⟨-, -, h⟩⟩ <;>
    rw [h]

theorem doRemoveNode_mMetas [DecidableEq Node] (mixer : VideoConfMix Node (Media Node))
    (node : Option Node) :
    (mixer.doRemoveNode kinds node).2.mMetas = mixer.mMetas := by
  rcases doRemoveNode_cases kinds mixer node with h | ⟨_, -, -, ⟨-, h⟩ | ⟨-, h⟩ | ⟨-, h⟩⟩ <;> rw [h]

/-- A call of another thread leaves the slots alone. -/
theorem LoopInv.withMixer (hinv : LoopInv kinds loop) {mixer : VideoConfMix Node (Media Node)}
    (hlisted : Listed kinds mixer) (hmetas : mixer.mMetas = loop.mixer.mMetas) :
    LoopInv kinds { loop with mixer := mixer } := by
  refine ⟨hlisted, ?_⟩
  have hphase := hinv.phase
  revert hphase
  dsimp only
  cases loop.phase <;> simp only [InPhase, hmetas] <;> exact id

theorem pull_inv (hinv : LoopInv kinds loop) (hidle : loop.phase = .idle) (fills : Nat → Bool) :
    LoopInv kinds (loop.pull fills) := by
  have hold : ∀ k buffer, (loop.mixer.mMetas k).txBuffer = some buffer ∨
      (loop.mixer.mMetas k).rxBuffer = some buffer → buffer.round ≤ loop.round := by
    simpa only [hidle, InPhase] using hinv.phase
  have hlisted := hinv.listed.withMetas
    (pullMembers (loop.round + 1) fills loop.mixer.mNodeList 0 loop.mixer.mMetas)
  refine ⟨hlisted, ⟨hlisted, ?_, ?_, ?_⟩, rfl, rfl, ?_⟩
  · intro k node buffer hnode hbuffer
    simp only [pull] at hnode hbuffer ⊢
    have hfilled := pullMembers_rxBuffer (loop.round + 1) fills hnode 0 loop.mixer.mMetas
    rw [Nat.zero_add] at hfilled
    rw [hfilled] at hbuffer
    split at hbuffer
    · exact (Option.some.inj hbuffer).symm
    · cases hbuffer
  · intro k buffer hk hbuffer
    simp only [pull] at hk hbuffer ⊢
    rw [pullMembers_outside _ _ _ (.inr (by simpa using hk))] at hbuffer
    exact Nat.lt_succ_of_le (hold k buffer (.inr hbuffer))
  · intro k buffer hbuffer
    simp only [pull] at hbuffer ⊢
    rw [pullMembers_txBuffer] at hbuffer
    exact Nat.lt_succ_of_le (hold k buffer (.inl hbuffer))
  · funext k
    simp [served, pull]

@[simp]
theorem served_rxBuffer (metas : Nat → MixMeta (Media Node)) (dec enc i k : Nat) :
    (served metas dec enc i k).rxBuffer = (metas k).rxBuffer := by
  unfold served
  split <;> rfl

/-- One more client is served. -/
theorem served_succ (metas : Nat → MixMeta (Media Node)) (dec enc i : Nat) :
    Function.update (served metas dec enc i) (dec + i)
        ⟨(metas enc).rxBuffer, (metas (dec + i)).rxBuffer⟩ = served metas dec enc (i + 1) := by
  funext k
  by_cases hk : k = dec + i
  · subst hk
    simp [served]
  · have hrange : dec ≤ k ∧ k < dec + i ↔ dec ≤ k ∧ k < dec + (i + 1) := by omega
    simp only [Function.update_of_ne hk, served, hrange]

/-- The encoder is given what the camera had. -/
theorem update_served (metas : Nat → MixMeta (Media Node)) {dec : Nat} (hdec : dec ≠ 0)
    (enc i : Nat) :
    Function.update (served metas dec enc i) enc ⟨(metas 0).rxBuffer, (metas enc).rxBuffer⟩ =
      routed metas dec enc i := by
  funext k
  by_cases hk : k = enc
  · subst hk
    simp [routed, hdec]
  · simp [routed, hk]

theorem mix_inv (hinv : LoopInv kinds loop) {offsetDec offsetEnc : Int} {i : Nat}
    (hphase : loop.phase = .mixing offsetDec offsetEnc i) :
    LoopInv kinds (loop.mix offsetDec offsetEnc i) := by
  have hmixing := hinv.phase
  rw [hphase] at hmixing
  obtain ⟨hfresh, hdec, henc, hmetas⟩ := hmixing
  have hslot : (offsetDec + i).toNat = offsetDec.toNat + i := by omega
  unfold mix
  split_ifs with hi hcamera
  · refine ⟨hinv.listed.withMetas _, hfresh, hdec, henc, ?_⟩
    simp only [hmetas, hslot, served_rxBuffer, served_succ]
  · refine ⟨hinv.listed.withMetas _, hfresh, hdec, henc, ?_⟩
    simp only [hmetas, served_rxBuffer]
    have hcameras : offsetDec.toNat ≠ 0 := by omega
    exact update_served _ hcameras _ _
  · refine ⟨hinv.listed, hfresh, hdec, henc, ?_⟩
    rw [hmetas]
    funext k
    simp [routed, not_not.mp hcamera]

/-- Nothing in the slots is of a later round. -/
theorem Fresh.round_le {round : Nat} {mixer : VideoConfMix Node (Media Node)}
    (hfresh : Fresh kinds round mixer) {k : Nat} {buffer : Media Node}
    (hbuffer : (mixer.mMetas k).txBuffer = some buffer ∨
      (mixer.mMetas k).rxBuffer = some buffer) : buffer.round ≤ round := by
  rcases hbuffer with hbuffer | hbuffer
  · exact (hfresh.sent k buffer hbuffer).le
  · by_cases hk : k < mixer.mNodeList.length
    · have hnode := List.getElem?_eq_getElem hk
      rw [hfresh.pulled k _ buffer hnode hbuffer]
    · exact (hfresh.received k buffer (not_lt.mp hk) hbuffer).le

theorem push_inv (hinv : LoopInv kinds loop) {offsetDec offsetEnc : Int} {i : Nat}
    (hphase : loop.phase = .mixed offsetDec offsetEnc i) :
    LoopInv kinds { loop with phase := .idle } := by
  have hmixed := hinv.phase
  rw [hphase] at hmixed
  obtain ⟨hfresh, -, -, hmetas⟩ := hmixed
  refine ⟨hinv.listed, fun k buffer hbuffer => ?_⟩
  dsimp only at hbuffer ⊢
  rw [hmetas] at hbuffer
  unfold routed served at hbuffer
  split_ifs at hbuffer
  all_goals
    rcases hbuffer with hbuffer | hbuffer
    · first
      | exact hfresh.round_le (.inr hbuffer)
      | exact hfresh.round_le (.inl hbuffer)
    · exact hfresh.round_le (.inr hbuffer)

/-- A step keeps the invariant, as long as the nodes that join are video nodes. -/
theorem loopStep_inv [DecidableEq Node] (hinv : LoopInv kinds loop) {call : LoopCall Node}
    (hcall : VideoNodes kinds loop call) {next : VideoLoop Node}
    (hstep : loopStep kinds loop call = some next) : LoopInv kinds next := by
  cases call with
  | insert node =>
      obtain rfl := Option.some.inj hstep
      refine hinv.withMixer (hinv.listed.doInsertNode fun member hmember => ?_)
        (doInsertNode_mMetas _ _)
      exact hcall member (hmember ▸ rfl)
  | remove node =>
      obtain rfl := Option.some.inj hstep
      exact hinv.withMixer (hinv.listed.doRemoveNode node) (doRemoveNode_mMetas _ _)
  | pull fills =>
      simp only [loopStep] at hstep
      split at hstep
      · obtain rfl := Option.some.inj hstep
        exact pull_inv hinv ‹_› fills
      · cases hstep
  | mix =>
      simp only [loopStep] at hstep
      split at hstep
      · obtain rfl := Option.some.inj hstep
        exact mix_inv hinv ‹_›
      · cases hstep
  | push =>
      simp only [loopStep] at hstep
      split at hstep
      · obtain rfl := Option.some.inj hstep
        exact push_inv hinv ‹_›
      · cases hstep

end Steps

/-! ## Pushing -/

/-- What holds at a push that is not given up: the offsets are those of the pull
and of the present list. -/
structure Accepted (loop : VideoLoop Node) (dec enc i : Nat) : Prop where
  fresh : Fresh kinds loop.round loop.pulled
  listed : Listed kinds loop.mixer
  dec_pulled : loop.pulled.mCameraNum = dec
  dec_now : loop.mixer.mCameraNum = dec
  enc_pulled : loop.pulled.mCameraNum + loop.pulled.mClientNum = enc
  enc_now : loop.mixer.mCameraNum + loop.mixer.mClientNum = enc
  metas : loop.mixer.mMetas = routed loop.pulled.mMetas dec enc i

section Pushing

variable {kinds} {loop : VideoLoop Node} {dec enc i : Nat}

theorem LoopInv.accepted (hinv : LoopInv kinds loop) {offsetDec offsetEnc : Int}
    (hphase : loop.phase = .mixed offsetDec offsetEnc i)
    (hsame : loop.changed offsetDec offsetEnc = false) :
    Accepted kinds loop offsetDec.toNat offsetEnc.toNat i := by
  have hmixed := hinv.phase
  rw [hphase] at hmixed
  obtain ⟨hfresh, hdec, henc, hmetas⟩ := hmixed
  obtain ⟨hdec', henc'⟩ : offsetDec = loop.mixer.mCameraNum ∧
      offsetEnc = loop.mixer.mCameraNum + loop.mixer.mClientNum := by
    simpa [changed] using hsame
  have hclients := hinv.listed.counted.clients
  exact ⟨hfresh, hinv.listed, by omega, by omega, by omega, by omega, hmetas⟩

namespace Accepted

theorem length_le (haccepted : Accepted kinds loop dec enc i) :
    loop.mixer.mNodeList.length = enc + loop.mixer.mEncoderNum ∧ loop.mixer.mEncoderNum ≤ 1 ∧
      dec ≤ enc := by
  obtain ⟨hclients, -, hcameras, -, hencoders, hlimit⟩ := haccepted.listed.counted
  have hlength := length_eq_kinds kinds loop.mixer.mNodeList
  have hdec := haccepted.dec_now
  have henc := haccepted.enc_now
  simp only [maxVideoEncoder] at hlimit
  omega

/-- What the camera is given. -/
theorem txBuffer_camera (haccepted : Accepted kinds loop dec enc i) (hdec : dec ≠ 0) :
    (loop.mixer.mMetas 0).txBuffer = (loop.pulled.mMetas 0).txBuffer := by
  have henc : 0 ≠ enc := by
    have hlength := haccepted.length_le
    omega
  rw [haccepted.metas]
  simp [routed, served, hdec, henc]

/-- What a client is given. -/
theorem txBuffer_client (haccepted : Accepted kinds loop dec enc i) {k : Nat} (hlow : dec ≤ k)
    (hhigh : k < enc) :
    (loop.mixer.mMetas k).txBuffer = if k < dec + i then (loop.pulled.mMetas enc).rxBuffer
      else (loop.pulled.mMetas k).txBuffer := by
  rw [haccepted.metas]
  by_cases hserved : k < dec + i
  · simp [routed, served, hlow, hhigh.ne, hserved]
  · simp [routed, served, hlow, hhigh.ne, hserved]

/-- What the encoder is given. -/
theorem txBuffer_encoder (haccepted : Accepted kinds loop dec enc i) :
    (loop.mixer.mMetas enc).txBuffer = if dec ≠ 0 then (loop.pulled.mMetas 0).rxBuffer
      else if enc < i then (loop.pulled.mMetas enc).rxBuffer
      else (loop.pulled.mMetas enc).txBuffer := by
  rw [haccepted.metas]
  by_cases hdec : dec = 0
  · by_cases hi : enc < i
    · simp [routed, served, hdec, hi]
    · simp [routed, served, hdec, hi]
  · simp [routed, hdec]

variable (hcamera : kinds.nodeVCameraSet < kinds.nodeVIpRender)
  (hrender : kinds.nodeVIpRender < kinds.nodeVEncoder)

include hcamera hrender in
/-- The slot of the encoder holds what the encoder had in this round, or something
older. -/
theorem rxBuffer_encoder (haccepted : Accepted kinds loop dec enc i) {buffer : Media Node}
    (hbuffer : (loop.pulled.mMetas enc).rxBuffer = some buffer) :
    (loop.pulled.mNodeList[enc]? = some buffer.source ∧ buffer.round = loop.round ∧
        kinds.nodeType buffer.source = kinds.nodeVEncoder) ∨
      loop.pulled.mNodeList[enc]? = none ∧ buffer.round < loop.round := by
  have hfresh := haccepted.fresh
  cases hnode : loop.pulled.mNodeList[enc]? with
  | none =>
      exact .inr ⟨rfl, hfresh.received enc buffer (List.getElem?_eq_none_iff.mp hnode) hbuffer⟩
  | some node =>
      obtain rfl := hfresh.pulled enc node buffer hnode hbuffer
      have henc := haccepted.enc_pulled
      have hdec := haccepted.dec_pulled
      have hclients := hfresh.listed.counted.clients
      have hposition := hfresh.listed.position hcamera hrender hnode
      exact .inl ⟨rfl, rfl, by dsimp only; omega⟩

include hcamera hrender in
/-- The first slot holds what the camera had in this round, when there was one. -/
theorem rxBuffer_camera (haccepted : Accepted kinds loop dec enc i) (hdec : dec ≠ 0)
    {buffer : Media Node} (hbuffer : (loop.pulled.mMetas 0).rxBuffer = some buffer) :
    loop.pulled.mNodeList[0]? = some buffer.source ∧ buffer.round = loop.round ∧
      kinds.nodeType buffer.source = kinds.nodeVCameraSet := by
  have hfresh := haccepted.fresh
  have hcameras := hfresh.listed.counted.cameras
  have hclients := hfresh.listed.counted.clients
  have hcount := haccepted.dec_pulled
  have hlength : 0 < loop.pulled.mNodeList.length := by
    have hlength := length_eq_kinds kinds loop.pulled.mNodeList
    omega
  have hnode := List.getElem?_eq_getElem hlength
  have hposition := hfresh.listed.position hcamera hrender hnode
  have hbuffer := hfresh.pulled 0 _ buffer hnode hbuffer
  subst hbuffer
  exact ⟨hnode, rfl, by dsimp only; omega⟩

include hcamera hrender in
/-- On clean slots a push hands out only what may be pushed. -/
theorem admissible_of_clean (haccepted : Accepted kinds loop dec enc i)
    (hclean : Clean loop dec enc i) {node : Node} {buffer : Media Node} {k : Nat}
    (hnode : loop.mixer.mNodeList[k]? = some node)
    (hbuffer : (loop.mixer.mMetas k).txBuffer = some buffer) :
    Admissible kinds loop node buffer := by
  have hlength := haccepted.length_le
  have hdec := haccepted.dec_now
  have henc := haccepted.enc_now
  have hbound : k < loop.mixer.mNodeList.length := (List.getElem?_eq_some_iff.mp hnode).1
  rcases haccepted.listed.position hcamera hrender hnode with
    ⟨htype, hk⟩ | ⟨htype, hlow, hhigh⟩ | ⟨htype, hk⟩
  · -- the slot of the camera is not touched in the round
    obtain rfl : k = 0 := by
      have hlimit := haccepted.listed.counted.cameras_le
      simp only [maxVideoCamera] at hlimit
      omega
    rw [haccepted.txBuffer_camera (by omega), hclean.camera (by omega)] at hbuffer
    cases hbuffer
  · rw [haccepted.txBuffer_client (by omega) (by omega)] at hbuffer
    have hclient := hclean.clients k (by omega) (by omega)
    split_ifs at hbuffer hclient with hserved
    · rcases hclient with hnone | ⟨encoder, hmember, hencoder⟩
      · cases hnone.symm.trans hbuffer
      · rcases haccepted.rxBuffer_encoder hcamera hrender hbuffer with
          ⟨hsource, hround, hsourceType⟩ | ⟨hnone, -⟩
        · obtain rfl := Option.some.inj (hencoder.symm.trans hsource)
          exact ⟨hround, hmember, fun _ => hsourceType, by omega⟩
        · cases hnone.symm.trans hencoder
    · cases hclient.symm.trans hbuffer
  · obtain rfl : k = enc := by omega
    rw [haccepted.txBuffer_encoder] at hbuffer
    have hencoder := hclean.encoder (by omega)
    split_ifs at hbuffer hencoder with hcameras hlate
    · rcases hencoder with hnone | ⟨camera, hmember, hfound⟩
      · cases hnone.symm.trans hbuffer
      · obtain ⟨hsource, hround, hsourceType⟩ :=
          haccepted.rxBuffer_camera hcamera hrender hcameras hbuffer
        obtain rfl := Option.some.inj (hfound.symm.trans hsource)
        exact ⟨hround, hmember, by omega, fun _ => hsourceType⟩
    all_goals cases hencoder.symm.trans hbuffer

include hcamera hrender in
/-- If a push hands out only what may be pushed, the slots were clean. -/
theorem clean_of_admissible (haccepted : Accepted kinds loop dec enc i)
    (hadmissible : ∀ k node buffer, loop.mixer.mNodeList[k]? = some node →
      (loop.mixer.mMetas k).txBuffer = some buffer → Admissible kinds loop node buffer) :
    Clean loop dec enc i := by
  have hlength := haccepted.length_le
  have hdec := haccepted.dec_now
  have henc := haccepted.enc_now
  have hnode : ∀ k, k < loop.mixer.mNodeList.length →
      ∃ node, loop.mixer.mNodeList[k]? = some node :=
    fun k hk => ⟨_, List.getElem?_eq_getElem hk⟩
  -- nothing that is left from an earlier round may be pushed
  have hstale : ∀ k, k < loop.mixer.mNodeList.length → ∀ buffer,
      (loop.mixer.mMetas k).txBuffer = some buffer → ¬ buffer.round < loop.round := by
    intro k hk buffer hbuffer
    obtain ⟨node, hnode⟩ := hnode k hk
    exact (hadmissible k node buffer hnode hbuffer).round.not_lt
  have hunsent : ∀ k, k < loop.mixer.mNodeList.length →
      (loop.mixer.mMetas k).txBuffer = (loop.pulled.mMetas k).txBuffer →
      (loop.pulled.mMetas k).txBuffer = none := by
    intro k hk hsame
    refine Option.eq_none_iff_forall_ne_some.mpr fun buffer hbuffer => ?_
    exact hstale k hk buffer (hsame.trans hbuffer) (haccepted.fresh.sent k buffer hbuffer)
  refine ⟨fun hcameras => ?_, fun k hlow hhigh => ?_, fun hencoders => ?_⟩
  · exact hunsent 0 (by omega) (haccepted.txBuffer_camera hcameras)
  · have hgiven := haccepted.txBuffer_client hlow hhigh
    split_ifs at hgiven ⊢ with hserved
    · refine or_iff_not_imp_left.mpr fun hsome => ?_
      obtain ⟨buffer, hbuffer⟩ := Option.ne_none_iff_exists'.mp hsome
      obtain ⟨node, hclient⟩ := hnode k (by omega)
      have hgiven := hadmissible k node buffer hclient (hgiven.trans hbuffer)
      rcases haccepted.rxBuffer_encoder hcamera hrender hbuffer with ⟨hsource, -⟩ | ⟨-, hold⟩
      · exact ⟨buffer.source, hgiven.source, hsource⟩
      · exact absurd hold hgiven.round.not_lt
    · exact hunsent k (by omega) hgiven
  · obtain ⟨node, hencoder⟩ := hnode enc (by omega)
    have htype : kinds.nodeType node = kinds.nodeVEncoder := by
      have hposition := haccepted.listed.position hcamera hrender hencoder
      omega
    have hgiven := haccepted.txBuffer_encoder
    split_ifs at hgiven ⊢ with hcameras hlate
    · refine or_iff_not_imp_left.mpr fun hsome => ?_
      obtain ⟨buffer, hbuffer⟩ := Option.ne_none_iff_exists'.mp hsome
      exact ⟨buffer.source, (hadmissible enc node buffer hencoder (hgiven.trans hbuffer)).source,
        (haccepted.rxBuffer_camera hcamera hrender hcameras hbuffer).1⟩
    · refine Option.eq_none_iff_forall_ne_some.mpr fun buffer hbuffer => ?_
      have hcameraType :=
        (hadmissible enc node buffer hencoder (hgiven.trans hbuffer)).encoder htype
      rcases haccepted.rxBuffer_encoder hcamera hrender hbuffer with ⟨-, -, htype'⟩ | ⟨-, hold⟩
      · omega
      · exact hstale enc (by omega) buffer (hgiven.trans hbuffer) hold
    · exact hunsent enc (by omega) hgiven

end Accepted

end Pushing

/-- In a conference of video nodes only buffers of the round reach the nodes, each
from the node it is meant to come from, exactly when every push that is not given
up finds clean slots. -/
theorem pushLaw_iff [DecidableEq Node] (hcamera : kinds.nodeVCameraSet < kinds.nodeVIpRender)
    (hrender : kinds.nodeVIpRender < kinds.nodeVEncoder) (calls : List (LoopCall Node))
    (hnodes : Promised (loopStep kinds) (VideoNodes kinds) create calls) :
    Promised (loopStep kinds) (PushLaw kinds) create calls ↔
      Promised (loopStep kinds) CleanPush create calls := by
  refine Promised.congr_invariant (LoopInv kinds) (fun loop call hinv _ => ?_)
    (fun loop call next hinv hnodes _ hstep => loopStep_inv hinv hnodes hstep) create_inv hnodes
  constructor
  · rintro hlaw offsetDec offsetEnc i rfl hphase hsame
    refine (hinv.accepted hphase hsame).clean_of_admissible hcamera hrender ?_
    intro k node buffer hnode hbuffer
    refine hlaw rfl node buffer ?_
    simp only [pushed, hphase, hsame, Bool.false_eq_true, if_false]
    exact mem_pushMembers.mpr ⟨k, hnode, by rwa [Nat.zero_add]⟩
  · rintro hclean rfl node buffer hpushed
    unfold pushed at hpushed
    split at hpushed
    · rename_i offsetDec offsetEnc i hphase
      split_ifs at hpushed with hchanged
      · cases hpushed
      · have hsame : loop.changed offsetDec offsetEnc = false := by simpa using hchanged
        obtain ⟨k, hnode, hbuffer⟩ := mem_pushMembers.mp hpushed
        rw [Nat.zero_add] at hbuffer
        exact (hinv.accepted hphase hsame).admissible_of_clean hcamera hrender
          (hclean offsetDec offsetEnc i rfl hphase hsame) hnode hbuffer
    · cases hpushed

/-- A camera, a client and an encoder join, and a round is made with them. -/
def firstRound : List (LoopCall Nat) :=
  [.insert (some 105), .insert (some 110), .insert (some 120), .pull fun _ => true,
    .mix, .mix, .push]

theorem pushLaw_iff_first_round :
    Promised (loopStep sampleKinds) (PushLaw sampleKinds) create firstRound := by
  have hnodes : Promised (loopStep sampleKinds) (VideoNodes sampleKinds) create firstRound := by
    refine Promised.always fun call hcall _ node hinsert => ?_
    subst hinsert
    simp only [firstRound, List.mem_cons, LoopCall.insert.injEq, Option.some.injEq, reduceCtorEq,
      List.not_mem_nil, or_false] at hcall
    rcases hcall with rfl | rfl | rfl <;> decide
  refine (pushLaw_iff sampleKinds (by decide) (by decide) firstRound hnodes).mpr ?_
  have hother : ∀ (loop : VideoLoop Nat) call, call ≠ .push → CleanPush loop call :=
    fun _ _ hcall _ _ _ hpush => absurd hpush hcall
  refine .cons (hother _ _ nofun) rfl <| .cons (hother _ _ nofun) rfl <|
    .cons (hother _ _ nofun) rfl <| .cons (hother _ _ nofun) rfl <|
    .cons (hother _ _ nofun) rfl <| .cons (hother _ _ nofun) rfl <| .cons ?_ rfl trivial
  intro offsetDec offsetEnc i _ hphase _
  obtain ⟨rfl, rfl, rfl⟩ := Phase.mixed.inj hphase
  refine ⟨fun _ => rfl, fun k hlow hhigh => ?_, fun _ => .inr ⟨105, by decide, rfl⟩⟩
  obtain rfl : k = 1 := Nat.le_antisymm (Nat.le_of_lt_succ hhigh) hlow
  exact .inr ⟨120, by decide, rfl⟩

/-- The encoder leaves after the first round. In the second one the client is
given the buffer the encoder had in the first. -/
theorem pushLaw_fails_without_encoder :
    ¬ Promised (loopStep sampleKinds) (PushLaw sampleKinds) create (firstRound ++
      [.remove (some 120), .pull fun _ => true, .mix, .mix, .push]) := by
  intro halong
  have hround := ((((((halong.2 _ rfl).2 _ rfl).2 _ rfl).2 _ rfl).2 _ rfl).2 _ rfl).2 _ rfl
  have hlast := ((((hround.2 _ rfl).2 _ rfl).2 _ rfl).2 _ rfl).1
  have hgiven := hlast rfl 110 ⟨1, 120⟩ (by decide)
  exact absurd hgiven.round (by decide)

end VideoLoop

end McuProxy.Conf
