/-
# Membership accounting of the audio conference

The two counters of the mixer should count its list, and a refused insertion
should leave no trace. Both hold as long as no VoIP codec is offered to a list
that has room while the limit on clients is already reached: there the limit is
tested too late, and the refused node stays in the list, uncounted.
-/

import McuProxy.Conf.AudioConfMix

namespace McuProxy.Conf.AudioConfMix

variable {Node : Type} [DecidableEq Node] (kinds : NodeKinds Node)

/-- The two calls that change the list. -/
inductive MemberCall (Node : Type)
  | insert (node : Node)
  | remove (node : Node)

/-- The state after one call; the returned status is dropped. -/
def memberStep (mixer : AudioConfMix Node) : MemberCall Node → AudioConfMix Node
  | .insert node => (mixer.doInsertNode kinds node).2
  | .remove node => (mixer.doRemoveNode kinds node).2

/-- The state after a sequence of calls. -/
def memberRun (mixer : AudioConfMix Node) (calls : List (MemberCall Node)) : AudioConfMix Node :=
  calls.foldl (memberStep kinds) mixer

/-- Whether an entry of the list is a VoIP codec, the kind `mClientNum` counts. -/
def isCodec (member : Member Node) : Bool := kinds.nodeType member.node = kinds.nodeAIpCodec

/-- The counters count the list, and respect both limits. -/
structure Accounts (mixer : AudioConfMix Node) : Prop where
  clients : mixer.mClientNum = mixer.mNodeList.countP (isCodec kinds)
  clients_le : mixer.mClientNum ≤ maxVoipObject
  mixed : mixer.mMixNum = mixer.mNodeList.length
  mixed_le : mixer.mMixNum ≤ maxMixObject

/-- The list, both counters and the reference count of `node` are the same. -/
structure SameMembership (node : Node) (before after : AudioConfMix Node) : Prop where
  list : after.mNodeList = before.mNodeList
  clients : after.mClientNum = before.mClientNum
  mixed : after.mMixNum = before.mMixNum
  strong : after.strong node = before.strong node

/-- The accounting law of a sequence of calls: the counters are right after
every prefix, and an insertion that returns an error changes no membership. -/
def MembershipLaw (mixer : AudioConfMix Node) (calls : List (MemberCall Node)) : Prop :=
  ∀ done rest, calls = done ++ rest →
    Accounts kinds (memberRun kinds mixer done) ∧
      ∀ node later, rest = .insert node :: later →
        ((memberRun kinds mixer done).doInsertNode kinds node).1 ≠ noError →
        SameMembership node (memberRun kinds mixer done)
          ((memberRun kinds mixer done).doInsertNode kinds node).2

/-- An insertion that the late test does not refuse: the list is full, or the
node is no codec, or there is room for one more client. -/
def VoipRoom (mixer : AudioConfMix Node) (node : Node) : Prop :=
  mixer.mNodeList.length < maxMixObject → kinds.nodeType node = kinds.nodeAIpCodec →
    mixer.mClientNum < maxVoipObject

theorem enlist_length (mixer : AudioConfMix Node) (node : Node) :
    (mixer.enlist kinds node).mNodeList.length = mixer.mNodeList.length + 1 := by
  simp [enlist, (Math.insertBefore_perm _ _ _).length_eq]

theorem enlist_countP (mixer : AudioConfMix Node) (node : Node) :
    (mixer.enlist kinds node).mNodeList.countP (isCodec kinds) =
      mixer.mNodeList.countP (isCodec kinds) +
        if kinds.nodeType node = kinds.nodeAIpCodec then 1 else 0 := by
  rw [enlist, (Math.insertBefore_perm _ _ _).countP_eq, List.countP_cons]
  simp [isCodec]

/-- The late test leaves the refused node in the list. -/
theorem doInsertNode_of_not_voipRoom {mixer : AudioConfMix Node} {node : Node}
    (hroom : ¬ VoipRoom kinds mixer node) :
    mixer.doInsertNode kinds node = (unknownError, mixer.enlist kinds node) := by
  simp only [VoipRoom, Classical.not_imp, not_lt] at hroom
  obtain ⟨hfree, hcodec, hclients⟩ := hroom
  have hsame : (mixer.enlist kinds node).mClientNum = mixer.mClientNum := rfl
  simp [doInsertNode, not_le.mpr hfree, hcodec, hsame, hclients]

/-- With room for the client, an insertion keeps the accounts, and an error
returned means that nothing happened. -/
theorem doInsertNode_accounts {mixer : AudioConfMix Node} {node : Node}
    (haccounts : Accounts kinds mixer) (hroom : VoipRoom kinds mixer node) :
    Accounts kinds (mixer.doInsertNode kinds node).2 ∧
      ((mixer.doInsertNode kinds node).1 ≠ noError →
        SameMembership node mixer (mixer.doInsertNode kinds node).2) := by
  obtain ⟨hclients, hclients_le, hmixed, hmixed_le⟩ := haccounts
  by_cases hfull : mixer.mNodeList.length ≥ maxMixObject
  · simp only [doInsertNode, hfull, if_true]
    exact ⟨⟨hclients, hclients_le, hmixed, hmixed_le⟩, fun _ => ⟨rfl, rfl, rfl, rfl⟩⟩
  · have hlength := enlist_length kinds mixer node
    have hcount := enlist_countP kinds mixer node
    have hsame : (mixer.enlist kinds node).mClientNum = mixer.mClientNum := rfl
    have hmix : (mixer.enlist kinds node).mMixNum = mixer.mMixNum := rfl
    by_cases hcodec : kinds.nodeType node = kinds.nodeAIpCodec
    · have hbelow := hroom (not_le.mp hfull) hcodec
      simp only [hcodec, if_true] at hcount
      simp only [doInsertNode, hfull, if_false, hcodec, if_true, hsame, not_le.mpr hbelow]
      refine ⟨⟨?_, ?_, ?_, ?_⟩, fun herr => absurd rfl herr⟩ <;> dsimp only <;> omega
    · simp only [hcodec, if_false] at hcount
      simp only [doInsertNode, hfull, if_false, hcodec]
      refine ⟨⟨?_, ?_, ?_, ?_⟩, fun herr => absurd rfl herr⟩ <;> dsimp only <;> omega

/-- A removal keeps the accounts, whether or not the node is a member. -/
theorem doRemoveNode_accounts {mixer : AudioConfMix Node} (node : Node)
    (haccounts : Accounts kinds mixer) : Accounts kinds (mixer.doRemoveNode kinds node).2 := by
  unfold doRemoveNode
  split
  · rename_i hmember
    obtain ⟨member, hin, hnode⟩ := List.any_eq_true.mp hmember
    obtain ⟨found, pre, post, _, hfound, hlist, herase⟩ :=
      List.exists_of_eraseP (p := fun member => decide (member.node = node)) hin hnode
    have hfoundNode : found.node = node := of_decide_eq_true hfound
    obtain ⟨hclients, hclients_le, hmixed, hmixed_le⟩ := haccounts
    have hlength := congrArg List.length hlist
    have hcount := congrArg (List.countP (isCodec kinds)) hlist
    simp only [List.length_append, List.length_cons] at hlength
    have hkind : isCodec kinds found = decide (kinds.nodeType node = kinds.nodeAIpCodec) := by
      simp only [isCodec, hfoundNode]
    simp only [List.countP_append, List.countP_cons, hkind, decide_eq_true_eq] at hcount
    refine ⟨?_, ?_, ?_, ?_⟩ <;>
      simp only [herase, List.length_append, List.countP_append] <;>
      split_ifs at hcount ⊢ <;> omega
  · exact haccounts

omit [DecidableEq Node] in
theorem create_accounts (strong : Node → Int) (ampIn ampOut : Nat → FastmixVol)
    (rxMeta : Nat → RxMeta) (buffer : Nat → Int) :
    Accounts kinds (create strong ampIn ampOut rxMeta buffer) :=
  ⟨rfl, by simp [create, maxVoipObject], rfl, by simp [create, maxMixObject]⟩

/-- Calls that always find room for their client keep the accounts from any
state in which they are right. -/
theorem memberRun_accounts {mixer : AudioConfMix Node} (haccounts : Accounts kinds mixer)
    (calls : List (MemberCall Node))
    (hroom : ∀ done node later, calls = done ++ .insert node :: later →
      VoipRoom kinds (memberRun kinds mixer done) node) :
    Accounts kinds (memberRun kinds mixer calls) := by
  induction calls generalizing mixer with
  | nil => exact haccounts
  | cons call calls ih =>
      have hnext : Accounts kinds (memberStep kinds mixer call) := by
        cases call with
        | insert node => exact (doInsertNode_accounts kinds haccounts (hroom [] node calls rfl)).1
        | remove node => exact doRemoveNode_accounts kinds node haccounts
      apply ih hnext
      intro done node later hcalls
      exact hroom (call :: done) node later (by rw [hcalls, List.cons_append])

/-- The accounting law holds of exactly the runs in which every codec offered to
a list with room is offered while `mClientNum` is below its limit. -/
theorem membershipLaw_iff_voipRoom (strong : Node → Int) (ampIn ampOut : Nat → FastmixVol)
    (rxMeta : Nat → RxMeta) (buffer : Nat → Int) (calls : List (MemberCall Node)) :
    MembershipLaw kinds (create strong ampIn ampOut rxMeta buffer) calls ↔
      ∀ done node later, calls = done ++ .insert node :: later →
        VoipRoom kinds (memberRun kinds (create strong ampIn ampOut rxMeta buffer) done) node := by
  constructor
  · intro hlaw done node later hcalls
    by_contra hroom
    have hinsert := doInsertNode_of_not_voipRoom kinds hroom
    have hsame := (hlaw done (.insert node :: later) hcalls).2 node later rfl
      (by rw [hinsert]; exact (by decide : unknownError ≠ noError))
    have hlength := congrArg List.length hsame.list
    rw [hinsert, enlist_length] at hlength
    omega
  · intro hroom done rest hcalls
    have haccounts := memberRun_accounts kinds
      (create_accounts kinds strong ampIn ampOut rxMeta buffer) done
      (fun done' node later hdone => hroom done' node (later ++ rest) (by
        rw [hcalls, hdone, List.append_assoc, List.cons_append]))
    refine ⟨haccounts, ?_⟩
    rintro node later rfl
    exact (doInsertNode_accounts kinds haccounts (hroom done node later hcalls)).2

/-- Seven codecs offered one after the other: the list has room for all of them,
the seventh is refused, and the law fails. -/
theorem membershipLaw_fails_at_seven :
    ¬ MembershipLaw (⟨fun _ => 3, 3⟩ : NodeKinds Nat)
      (create (fun _ => 1) (fun _ => .mixDisable) (fun _ => .mixDisable)
        (fun _ => ⟨0, 0, none⟩) fun _ => 0)
      ((List.range 7).map .insert) := by
  intro hlaw
  have hsame := (hlaw ((List.range 6).map .insert) [.insert 6] rfl).2 6 [] rfl
    (by decide)
  exact absurd (congrArg List.length hsame.list) (by decide)

end McuProxy.Conf.AudioConfMix
