/-
# Rounds of the audio conference

Slots belong to positions of the list, so a node that joins or leaves moves the
others to different slots, and all eight slots are added in every round. What
keeps old samples out of the mix is local to a round: the slots are disabled at
its head, the pulls overwrite the slots of the current list, and the mixer
zeroes every slot that is still disabled. The invariant over runs is therefore
about the list only.
-/

import McuProxy.Conf.AudioConfMix
import McuProxy.Math.Machine

namespace McuProxy.Conf.AudioConfMix

open McuProxy.Math

variable {Node : Type} (kinds : NodeKinds Node)

/-- The order of the list: by type, and by insertion among equal types. -/
def Precedes (first second : Member Node) : Prop :=
  kinds.nodeType first.node < kinds.nodeType second.node ∨
    kinds.nodeType first.node = kinds.nodeType second.node ∧ first.joined < second.joined

/-- What every reachable list satisfies. -/
structure ListInv (mixer : AudioConfMix Node) : Prop where
  sorted : mixer.mNodeList.Pairwise (Precedes kinds)
  length_le : mixer.mNodeList.length ≤ maxMixObject
  joined_lt : ∀ member ∈ mixer.mNodeList, member.joined < mixer.joins

section Joining

variable [DecidableEq Node]

theorem enlist_listInv {mixer : AudioConfMix Node} (hinv : ListInv kinds mixer) (node : Node)
    (hroom : mixer.mNodeList.length < maxMixObject) :
    ListInv kinds (mixer.enlist kinds node) where
  sorted := by
    apply insertBefore_pairwise hinv.sorted
    · intro other _ hbehind
      exact Or.inl (of_decide_eq_true hbehind)
    · intro other hother hbefore
      have hle := not_lt.mp (of_decide_eq_false hbefore)
      rcases hle.lt_or_eq with hlt | heq
      · exact Or.inl hlt
      · exact Or.inr ⟨heq, hinv.joined_lt other hother⟩
    · intro first _ second _ hprecedes hbehind
      have hlt := of_decide_eq_true hbehind
      rcases hprecedes with hless | ⟨heq, _⟩
      · exact decide_eq_true (hlt.trans hless)
      · exact decide_eq_true (heq ▸ hlt)
  length_le := by
    rw [enlist, (insertBefore_perm _ _ _).length_eq]
    exact hroom
  joined_lt := by
    intro member hmember
    rcases mem_insertBefore.mp hmember with rfl | hold
    · exact Nat.lt_succ_self _
    · exact Nat.lt_succ_of_lt (hinv.joined_lt member hold)

/-- An insertion keeps the order of the list, also when it returns an error. -/
theorem doInsertNode_listInv {mixer : AudioConfMix Node} (hinv : ListInv kinds mixer)
    (node : Node) : ListInv kinds (mixer.doInsertNode kinds node).2 := by
  by_cases hfull : mixer.mNodeList.length ≥ maxMixObject
  · simpa [doInsertNode, hfull] using hinv
  · have henlist := enlist_listInv kinds hinv node (not_le.mp hfull)
    simp only [doInsertNode, hfull, if_false]
    split_ifs <;> exact ⟨henlist.sorted, henlist.length_le, henlist.joined_lt⟩

/-- A removal takes out one entry and keeps the order of the others. -/
theorem doRemoveNode_listInv {mixer : AudioConfMix Node} (hinv : ListInv kinds mixer)
    (node : Node) : ListInv kinds (mixer.doRemoveNode kinds node).2 := by
  unfold doRemoveNode
  split
  · have hsub := List.eraseP_sublist (p := fun member : Member Node => decide (member.node = node))
      (l := mixer.mNodeList)
    exact ⟨hinv.sorted.sublist hsub, hsub.length_le.trans hinv.length_le,
      fun member hmember => hinv.joined_lt member (hsub.subset hmember)⟩
  · exact hinv

end Joining

/-- What a whole pull loop over slots `i`, …, `i + count - 1` leaves. -/
def pulled (pulls : Nat → Pull) (i count : Nat) (mixer : AudioConfMix Node) :
    AudioConfMix Node :=
  { mixer with
    audioIn := fun k => if i ≤ k ∧ k < i + count then
        ⟨pulledAmp k (pulls k).rxMeta.quickData, (pulls k).rxData⟩ else mixer.audioIn k
    audioOut := fun k => if i ≤ k ∧ k < i + count then
        { mixer.audioOut k with amp := .mixKeep0dB } else mixer.audioOut k
    rxMeta := fun k => if i ≤ k ∧ k < i + count then (pulls k).rxMeta else mixer.rxMeta k }

/-- One successful pull, then the others. -/
theorem pulled_succ (pulls : Nat → Pull) (i count : Nat) (mixer : AudioConfMix Node) :
    pulled pulls (i + 1) count ((mixer.receive i (pulls i)).setAmp i
        (pulledAmp i (pulls i).rxMeta.quickData) .mixKeep0dB) =
      pulled pulls i (count + 1) mixer := by
  have hslot : ∀ k, k ≠ i → ((i + 1 ≤ k ∧ k < i + 1 + count) ↔
      (i ≤ k ∧ k < i + (count + 1))) := by omega
  simp only [pulled, receive, setAmp]
  congr 1 <;>
  · funext k
    by_cases hk : k = i
    · subst k
      simp
    · simp only [Function.update_of_ne hk, hslot k hk]

/-- The pull loop when every pull succeeds. -/
theorem pullMembers_success (pulls : Nat → Pull) (members : List (Member Node)) (i : Nat)
    (ret : Int) (mixer : AudioConfMix Node) (hbound : i + members.length ≤ maxMixObject)
    (hpulls : ∀ k, i ≤ k → k < i + members.length → (pulls k).ret = noError) :
    pullMembers pulls members i ret mixer =
      some (if members = [] then ret else noError, pulled pulls i members.length mixer) := by
  induction members generalizing i ret mixer with
  | nil =>
      have hempty : ∀ k, ¬ (i ≤ k ∧ k < i + 0) := by omega
      simp only [pullMembers, pulled, List.length_nil, hempty, if_false, if_true]
  | cons member members ih =>
      simp only [List.length_cons] at hbound hpulls ⊢
      have hret : (pulls i).ret = noError := hpulls i le_rfl (by omega)
      have hi : i < maxMixObject := by omega
      rw [pullMembers, if_pos hi]
      simp only [hret, ne_eq, not_true_eq_false, if_false]
      rw [ih _ _ _ (by omega) fun k hk hk' => hpulls k (by omega) (by omega)]
      simp only [pulled_succ, ite_self, reduceCtorEq, if_false]

/-- The pull loop when some pull fails: it ends with an error status, and only
slot contents have changed. -/
theorem pullMembers_failure (pulls : Nat → Pull) (members : List (Member Node)) (i : Nat)
    (ret : Int) (mixer : AudioConfMix Node) (hbound : i + members.length ≤ maxMixObject)
    (hfail : ∃ k, i ≤ k ∧ k < i + members.length ∧ (pulls k).ret ≠ noError) :
    ∃ ret' mixer', pullMembers pulls members i ret mixer = some (ret', mixer') ∧
      ret' ≠ noError ∧ mixer'.mNodeList = mixer.mNodeList ∧ mixer'.joins = mixer.joins := by
  induction members generalizing i ret mixer with
  | nil =>
      obtain ⟨k, hk, hk', _⟩ := hfail
      simp only [List.length_nil] at hk'
      omega
  | cons member members ih =>
      simp only [List.length_cons] at hbound hfail
      have hi : i < maxMixObject := by omega
      by_cases hret : (pulls i).ret = noError
      · have hlater : ∃ k, i + 1 ≤ k ∧ k < i + 1 + members.length ∧ (pulls k).ret ≠ noError := by
          obtain ⟨k, hk, hk', hfail'⟩ := hfail
          refine ⟨k, ?_, by omega, hfail'⟩
          have hne : k ≠ i := fun heq => hfail' (heq ▸ hret)
          omega
        obtain ⟨ret', mixer', hloop, hne, hlist, hjoins⟩ := ih (i + 1) (pulls i).ret
          ((mixer.receive i (pulls i)).setAmp i (pulledAmp i (pulls i).rxMeta.quickData)
            .mixKeep0dB) (by omega) hlater
        refine ⟨ret', mixer', ?_, hne, hlist, hjoins⟩
        rw [pullMembers, if_pos hi]
        simpa [hret] using hloop
      · refine ⟨(pulls i).ret, mixer.receive i (pulls i), ?_, hret, rfl, rfl⟩
        rw [pullMembers, if_pos hi]
        simp only [hret, ne_eq, not_false_eq_true, if_true]

/-- The positions position `i` hears in a round of `count` nodes: the others
that are not muted. -/
def heard (pulls : Nat → Pull) (count i : Nat) : Finset Nat :=
  ((Finset.range count).erase i).filter fun k => k = 0 ∨ (pulls k).rxMeta.quickData = 1

/-- The input slots of a round whose pulls all succeed, after the head of the
loop has disabled every slot. -/
def roundSlots (pulls : Nat → Pull) (mixer : AudioConfMix Node) : AudioConfMix Node :=
  pulled pulls 0 mixer.mNodeList.length mixer.disableSlots

/-- A slot contributes the frame just pulled when its node is heard, and nothing
otherwise: muted nodes and slots past the list are disabled. -/
theorem preGain_roundSlots (pulls : Nat → Pull) (mixer : AudioConfMix Node) {k : Nat}
    (hk : k < maxMixObject) (n : Nat) :
    preGain ((roundSlots pulls mixer).audioIn k).amp
        (((roundSlots pulls mixer).audioIn k).pAudioData n).toInt =
      if k < mixer.mNodeList.length ∧ (k = 0 ∨ (pulls k).rxMeta.quickData = 1) then
        ((pulls k).rxData n).toInt else 0 := by
  by_cases hlen : k < mixer.mNodeList.length
  · by_cases hquick : k = 0 ∨ (pulls k).rxMeta.quickData = 1
    · simp [roundSlots, pulled, pulledAmp, hlen, hquick, preGain]
    · simp [roundSlots, pulled, pulledAmp, hlen, hquick, preGain]
  · simp [roundSlots, pulled, disableSlots, hlen, hk, preGain]

/-- Adding all slots but one adds the frames that position hears. -/
theorem sum_roundSlots (pulls : Nat → Pull) (mixer : AudioConfMix Node)
    (hlength : mixer.mNodeList.length ≤ maxMixObject) (i n : Nat) :
    (∑ k ∈ (Finset.range maxMixObject).erase i,
        preGain ((roundSlots pulls mixer).audioIn k).amp
          (((roundSlots pulls mixer).audioIn k).pAudioData n).toInt) =
      ∑ k ∈ heard pulls mixer.mNodeList.length i, ((pulls k).rxData n).toInt := by
  calc
    _ = ∑ k ∈ (Finset.range maxMixObject).erase i,
          if k < mixer.mNodeList.length ∧ (k = 0 ∨ (pulls k).rxMeta.quickData = 1) then
            ((pulls k).rxData n).toInt else 0 := by
        apply Finset.sum_congr rfl
        intro k hk
        exact preGain_roundSlots pulls mixer (Finset.mem_range.mp (Finset.mem_of_mem_erase hk)) n
    _ = _ := by
        rw [← Finset.sum_filter]
        apply Finset.sum_congr _ fun _ _ => rfl
        ext k
        simp only [heard, Finset.mem_filter, Finset.mem_erase, Finset.mem_range]
        constructor
        · rintro ⟨⟨hne, _⟩, hlen, hquick⟩
          exact ⟨⟨hne, hlen⟩, hquick⟩
        · rintro ⟨⟨hne, hlen⟩, hquick⟩
          exact ⟨⟨hne, hlen.trans_le hlength⟩, hlen, hquick⟩

theorem map_node_pushMembers (mixer : AudioConfMix Node) :
    mixer.pushMembers.map Push.node = mixer.mNodeList.map Member.node := by
  have hnode : mixer.pushMembers.map Push.node =
      (mixer.mNodeList.zipIdx.map Prod.fst).map Member.node := by
    simp only [pushMembers, List.map_map]
    rfl
  rw [hnode, List.zipIdx_map_fst]

/-- What a round with answers `pulls` owes to a list of members: one frame to
each, in order, holding at every sample the saturated sum of what that position
hears. -/
structure RoundPushes (mSampleLen : Nat) (pulls : Nat → Pull) (members : List (Member Node))
    (pushes : List (Push Node)) : Prop where
  nodes : pushes.map Push.node = members.map Member.node
  samples : ∀ i push, pushes[i]? = some push → ∀ n, n < mSampleLen →
    (push.data n).toInt =
      sat16 (∑ k ∈ heard pulls members.length i, ((pulls k).rxData n).toInt)

/-- A mixing round is defined and keeps the list. If every pull succeeds, it
pushes what it owes to the list; if some pull fails, it pushes nothing. -/
theorem threadRound_mixing (mSampleLen : Nat) (ret : Int) (pulls : Nat → Pull)
    {mixer : AudioConfMix Node} (hlength : mixer.mNodeList.length ≤ maxMixObject)
    (hclients : mixer.mClientNum ≠ 0) :
    ∃ mixer' pushes, mixer.threadRound mSampleLen ret pulls = some (mixer', pushes) ∧
      mixer'.mNodeList = mixer.mNodeList ∧ mixer'.joins = mixer.joins ∧
      ((∀ i, i < mixer.mNodeList.length → (pulls i).ret = noError) →
        RoundPushes mSampleLen pulls mixer.mNodeList pushes) ∧
      ((∃ i, i < mixer.mNodeList.length ∧ (pulls i).ret ≠ noError) → pushes = []) := by
  have hclients' : mixer.disableSlots.mClientNum ≠ 0 := hclients
  by_cases hfail : ∃ i, i < mixer.mNodeList.length ∧ (pulls i).ret ≠ noError
  · obtain ⟨k, hk, hret⟩ := hfail
    obtain ⟨ret', mixer', hloop, hne, hlist, hjoins⟩ := pullMembers_failure pulls
      mixer.mNodeList 0 ret mixer.disableSlots (by simpa using hlength)
      ⟨k, Nat.zero_le k, by simpa using hk, hret⟩
    refine ⟨mixer', [], ?_, hlist, hjoins, fun hall => absurd (hall k hk) hret, fun _ => rfl⟩
    have hloop' : pullMembers pulls mixer.disableSlots.mNodeList 0 ret mixer.disableSlots =
      some (ret', mixer') := hloop
    simp [threadRound, hclients', hloop', hne]
  · have hpulls : ∀ k, k < mixer.mNodeList.length → (pulls k).ret = noError := by
      simpa using hfail
    have hloop : pullMembers pulls mixer.disableSlots.mNodeList 0 ret mixer.disableSlots =
        some (if mixer.mNodeList = [] then ret else noError, roundSlots pulls mixer) :=
      pullMembers_success pulls mixer.mNodeList 0 ret mixer.disableSlots (by simpa using hlength)
        fun k _ hk => hpulls k (by simpa using hk)
    by_cases hret : (if mixer.mNodeList = [] then ret else noError) = noError
    · obtain ⟨result, inter, hmix, _, hin, hinter, _, hothers⟩ := mix_outputs
        (show maxMixObject ≤ 32768 by decide) mSampleLen (roundSlots pulls mixer).audioIn
        (roundSlots pulls mixer).buffer none (roundSlots pulls mixer).audioOut
      let final : AudioConfMix Node := { roundSlots pulls mixer with
        audioIn := result.pInput.getD (roundSlots pulls mixer).audioIn
        buffer := result.buffer.getD (roundSlots pulls mixer).buffer
        audioOut := inter }
      refine ⟨final, final.pushMembers, ?_, rfl, rfl, fun _ => ⟨?_, ?_⟩,
        fun h => absurd h hfail⟩
      · simp [threadRound, hclients', hloop, hret, hmix, hinter, final]
      · exact map_node_pushMembers final
      · intro i push hpush n hn
        obtain ⟨hi, hdata⟩ : i < mixer.mNodeList.length ∧ push.data = (inter i).pAudioData := by
          simp only [pushMembers, List.getElem?_map, List.getElem?_zipIdx, Option.map_eq_some_iff,
            final] at hpush
          obtain ⟨entry, ⟨member, hmember, rfl⟩, rfl⟩ := hpush
          exact ⟨(List.getElem?_eq_some_iff.mp hmember).1, by simp⟩
        have hslot : i < maxMixObject := hi.trans_le hlength
        have hamp : ((roundSlots pulls mixer).audioOut i).amp = .mixKeep0dB := by
          simp [roundSlots, pulled, hi]
        rw [hdata, hothers i hslot n hn, hamp, sum_roundSlots pulls mixer hlength]
        rfl
    · have hnil : mixer.mNodeList = [] := by
        by_contra hne
        exact hret (if_neg hne)
      refine ⟨roundSlots pulls mixer, [], ?_, rfl, rfl, fun _ => ?_, fun _ => rfl⟩
      · simp [threadRound, hclients', hloop, hret]
      · simpa [hnil] using (⟨rfl, by simp⟩ : RoundPushes mSampleLen pulls [] [])

theorem create_listInv (strong : Node → Int) (ampIn ampOut : Nat → FastmixVol)
    (rxMeta : Nat → RxMeta) (buffer : Nat → Int) :
    ListInv kinds (create strong ampIn ampOut rxMeta buffer) :=
  ⟨List.Pairwise.nil, Nat.zero_le _, by simp [create]⟩

/-- A loopback between two nodes is defined and keeps the list. -/
theorem loopback_defined (pulls : Nat → Pull) (mixer : AudioConfMix Node)
    (htwo : 2 ≤ mixer.mNodeList.length) :
    ∃ mixer' pushes, mixer.loopback pulls = some (mixer', pushes) ∧
      mixer'.mNodeList = mixer.mNodeList ∧ mixer'.joins = mixer.joins := by
  unfold loopback
  split
  · exact ⟨_, _, rfl, rfl, rfl⟩
  · rename_i hshort
    match hlist : mixer.mNodeList with
    | [] => simp [hlist] at htwo
    | [_] => simp [hlist] at htwo
    | first :: second :: rest => exact absurd hlist (hshort first second rest)

/-- A round keeps the list, mixing or looping back. -/
theorem threadRound_listInv (mSampleLen : Nat) (ret : Int) (pulls : Nat → Pull)
    {mixer : AudioConfMix Node} (hinv : ListInv kinds mixer)
    (hround : mixer.mClientNum ≠ 0 ∨ 2 ≤ mixer.mNodeList.length) :
    ∃ mixer' pushes, mixer.threadRound mSampleLen ret pulls = some (mixer', pushes) ∧
      ListInv kinds mixer' := by
  have hkeep : ∀ mixer' : AudioConfMix Node, mixer'.mNodeList = mixer.mNodeList →
      mixer'.joins = mixer.joins → ListInv kinds mixer' := by
    intro mixer' hlist hjoins
    exact ⟨hlist ▸ hinv.sorted, hlist ▸ hinv.length_le, by
      rw [hlist, hjoins]
      exact hinv.joined_lt⟩
  by_cases hclients : mixer.mClientNum = 0
  · have htwo := hround.resolve_left (not_not_intro hclients)
    have hclients' : mixer.disableSlots.mClientNum = 0 := hclients
    obtain ⟨mixer', pushes, hdefined, hlist, hjoins⟩ :=
      loopback_defined pulls mixer.disableSlots htwo
    refine ⟨mixer', pushes, ?_, hkeep mixer' hlist hjoins⟩
    simpa [threadRound, hclients'] using hdefined
  · obtain ⟨mixer', pushes, hdefined, hlist, hjoins, _⟩ :=
      threadRound_mixing mSampleLen ret pulls hinv.length_le hclients
    exact ⟨mixer', pushes, hdefined, hkeep mixer' hlist hjoins⟩

variable [DecidableEq Node]

/-- What can happen to a mixer: a node joins, a node leaves, or its thread runs
a round in which `ret` is initially garbage and the nodes answer `pulls`. -/
inductive ConfInput (Node : Type)
  | insert (node : Node)
  | remove (node : Node)
  | round (ret : Int) (pulls : Nat → Pull)

/-- The state after one input, when it is defined. -/
def confStep (mSampleLen : Nat) (mixer : AudioConfMix Node) :
    ConfInput Node → Option (AudioConfMix Node)
  | .insert node => some (mixer.doInsertNode kinds node).2
  | .remove node => some (mixer.doRemoveNode kinds node).2
  | .round ret pulls => (mixer.threadRound mSampleLen ret pulls).map Prod.fst

omit [DecidableEq Node] in
/-- Rounds are mixing rounds, or loopback rounds with both of their nodes. -/
def MixingRounds (mixer : AudioConfMix Node) : ConfInput Node → Prop
  | .round _ _ => mixer.mClientNum ≠ 0 ∨ 2 ≤ mixer.mNodeList.length
  | _ => True

/-- The conference round law. Any sequence of joins, leaves and rounds is
defined; after it the list is ordered by type and by insertion among equal
types; and a mixing round, whatever its nodes answer, pushes to the `i`-th node
the saturated sum of the frames just pulled from the other nodes that are not
muted, unless a pull fails, and then pushes nothing. No other sample enters:
neither a slot past the list nor anything an earlier round left behind. -/
theorem conference_round_law (mSampleLen : Nat) (strong : Node → Int)
    (ampIn ampOut : Nat → FastmixVol) (rxMeta : Nat → RxMeta) (buffer : Nat → Int)
    (inputs : List (ConfInput Node))
    (hrounds : Promised (confStep kinds mSampleLen) MixingRounds
      (create strong ampIn ampOut rxMeta buffer) inputs) :
    ∃ mixer, runMachine (confStep kinds mSampleLen)
        (create strong ampIn ampOut rxMeta buffer) inputs = some mixer ∧
      mixer.mNodeList.Pairwise (Precedes kinds) ∧
      mixer.mNodeList.length ≤ maxMixObject ∧
      ∀ ret pulls, mixer.mClientNum ≠ 0 →
        ∃ mixer' pushes, mixer.threadRound mSampleLen ret pulls = some (mixer', pushes) ∧
          ((∀ i, i < mixer.mNodeList.length → (pulls i).ret = noError) →
            RoundPushes mSampleLen pulls mixer.mNodeList pushes) ∧
          ((∃ i, i < mixer.mNodeList.length ∧ (pulls i).ret ≠ noError) → pushes = []) := by
  obtain ⟨mixer, hrun, hinv⟩ := runMachine_invariant (ListInv kinds) (by
      intro mixer input hinv hpromise
      cases input with
      | insert node => exact ⟨_, rfl, doInsertNode_listInv kinds hinv node⟩
      | remove node => exact ⟨_, rfl, doRemoveNode_listInv kinds hinv node⟩
      | round ret pulls =>
          obtain ⟨mixer', pushes, hdefined, hinv'⟩ :=
            threadRound_listInv kinds mSampleLen ret pulls hinv hpromise
          exact ⟨mixer', by simp [confStep, hdefined], hinv'⟩)
    (create_listInv kinds strong ampIn ampOut rxMeta buffer) hrounds
  refine ⟨mixer, hrun, hinv.sorted, hinv.length_le, fun ret pulls hclients => ?_⟩
  obtain ⟨mixer', pushes, hdefined, _, _, hpush, hnone⟩ :=
    threadRound_mixing mSampleLen ret pulls hinv.length_le hclients
  exact ⟨mixer', pushes, hdefined, hpush, hnone⟩

/-- Two codecs join. After a round in which both are heard, each gets the frame of the other. -/
theorem conference_round_law_two :
    ∃ (mixer mixer' : AudioConfMix Nat) (pushes : List (Push Nat)),
      runMachine (confStep ⟨fun _ => 3, 3⟩ 1)
        (create (fun _ => 1) (fun _ => .mixDisable) (fun _ => .mixDisable)
          (fun _ => ⟨0, 0, none⟩) fun _ => 0)
        [.insert 10, .insert 11, .round 5 fun _ => ⟨0, fun _ => 30, 1, 2, none⟩] = some mixer ∧
      mixer.threadRound 1 5 (fun k => ⟨0, fun _ => if k = 0 then 7 else 9, 1, 2, none⟩) =
        some (mixer', pushes) ∧
      pushes.map Push.node = [10, 11] ∧
      pushes.map (fun push => (push.data 0).toInt) = [9, 7] := by
  have hrounds : Promised (confStep (⟨fun _ => 3, 3⟩ : NodeKinds Nat) 1) MixingRounds
      (create (fun _ => 1) (fun _ => .mixDisable) (fun _ => .mixDisable)
        (fun _ => ⟨0, 0, none⟩) fun _ => 0)
      [.insert 10, .insert 11, .round 5 fun _ => ⟨0, fun _ => 30, 1, 2, none⟩] := by
    refine ⟨trivial, ?_⟩
    rintro _ ⟨⟩
    refine ⟨trivial, ?_⟩
    rintro _ ⟨⟩
    refine ⟨Or.inl (by decide), ?_⟩
    exact fun _ _ => trivial
  obtain ⟨mixer, hrun, _, _, hround⟩ := conference_round_law ⟨fun _ => 3, 3⟩ 1 (fun _ => 1)
    (fun _ => .mixDisable) (fun _ => .mixDisable) (fun _ => ⟨0, 0, none⟩) (fun _ => 0) _ hrounds
  have hmembers : mixer.mClientNum = 2 ∧ mixer.mNodeList.map Member.node = [10, 11] := by
    obtain rfl := Option.some.inj hrun
    exact ⟨rfl, rfl⟩
  have hlength : mixer.mNodeList.length = 2 := by
    have hlength := congrArg List.length hmembers.2
    rwa [List.length_map] at hlength
  obtain ⟨mixer', pushes, hdefined, hpushes, _⟩ := hround 5
    (fun k => ⟨0, fun _ => if k = 0 then 7 else 9, 1, 2, none⟩)
    (by rw [hmembers.1]; exact two_ne_zero)
  obtain ⟨hnodes, hsamples⟩ := hpushes fun _ _ => rfl
  rw [hmembers.2] at hnodes
  rw [hlength] at hsamples
  refine ⟨mixer, mixer', pushes, hrun, hdefined, hnodes, ?_⟩
  obtain ⟨first, others, rfl, -, hothers⟩ := List.map_eq_cons_iff.mp hnodes
  obtain ⟨second, rest, rfl, -, hrest⟩ := List.map_eq_cons_iff.mp hothers
  obtain rfl := List.map_eq_nil_iff.mp hrest
  have hfirst := hsamples 0 first rfl 0 Nat.one_pos
  have hsecond := hsamples 1 second rfl 0 Nat.one_pos
  rw [List.map_cons, List.map_cons, List.map_nil, hfirst, hsecond]
  decide

end McuProxy.Conf.AudioConfMix
