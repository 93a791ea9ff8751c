/-
# What a round touches

A round of the audio thread walks the list with iterators and indexes three
arrays of `MAX_MIX_OBJECT` elements. Its branch is decided by the counter of
clients, while its iterators walk the list, and the branch without clients takes
the first two nodes of the list for granted. This module lists every access of a
round in the order of the source and tells when all of them are in range.

The thread is started whether or not anybody has joined, so that a round meets
every list that joins and leaves can produce.
-/

import McuProxy.Conf.Round

namespace McuProxy.Conf.AudioConfMix

open McuProxy.Math

variable {Node : Type}

/-- One access of `threadLoop`: an iterator of `mNodeList` is dereferenced at a
position counted from `begin()`, or an array is indexed. -/
inductive Access
  | node (position : Nat)
  | mMetas (i : Nat)
  | audioIn (i : Nat)
  | audioOut (i : Nat)
  deriving DecidableEq

/-- The iterator points at an element of a list of `count` nodes, or the index is
one of the array. -/
def Access.InRange (count : Nat) : Access → Prop
  | .node position => position < count
  | .mMetas i => i < maxMixObject
  | .audioIn i => i < maxMixObject
  | .audioOut i => i < maxMixObject

instance (count : Nat) : DecidablePred (Access.InRange count)
  | .node position => inferInstanceAs (Decidable (position < count))
  | .mMetas i => inferInstanceAs (Decidable (i < maxMixObject))
  | .audioIn i => inferInstanceAs (Decidable (i < maxMixObject))
  | .audioOut i => inferInstanceAs (Decidable (i < maxMixObject))

/-- The head of the loop, which disables every slot. -/
def headAccesses : List Access :=
  (List.range maxMixObject).flatMap fun i => [.audioIn i, .audioOut i]

/-- The loop that pulls, from position `i` on, with the value of `ret` at its
end. -/
def pullAccesses (pulls : Nat → Pull) : List (Member Node) → Nat → Int → Int × List Access
  | [], _, ret => (ret, [])
  | _ :: rest, i, _ =>
      if (pulls i).ret ≠ noError then ((pulls i).ret, [.node i, .mMetas i])
      else
        let later := pullAccesses pulls rest (i + 1) (pulls i).ret
        (later.1, [.node i, .mMetas i, .mMetas i, .audioIn i, .audioOut i] ++ later.2)

/-- The three functions that `mix` calls, each over `mSourceNum` slots:
`fastmix_pre_amp`, `fastmix_add` and `fastmix_sub_amp`. -/
def mixAccesses : List Access :=
  (List.range maxMixObject).map .audioIn ++ (List.range maxMixObject).map .audioIn ++
    (List.range maxMixObject).flatMap fun i => [.audioIn i, .audioOut i]

/-- The loop that pushes, from position `i` on. A failing push does not end it. -/
def pushAccesses : List (Member Node) → Nat → List Access
  | [], _ => []
  | _ :: rest, i => [.mMetas i, .mMetas i, .node i, .mMetas i] ++ pushAccesses rest (i + 1)

/-- The branch without clients. -/
def loopbackAccesses : List Access :=
  [.node 0, .mMetas 0, .node 1, .mMetas 1, .node 0, .mMetas 1, .node 1, .mMetas 0]

/-- All accesses of one round, as `threadRound` runs it. -/
def roundAccesses (ret : Int) (pulls : Nat → Pull) (mixer : AudioConfMix Node) : List Access :=
  headAccesses ++
    if mixer.mClientNum ≠ 0 then
      let pulled := pullAccesses pulls mixer.mNodeList 0 ret
      pulled.2 ++
        if pulled.1 ≠ noError then []
        else [.mMetas 0, .mMetas 0] ++ mixAccesses ++ pushAccesses mixer.mNodeList 0
    else loopbackAccesses

/-- Every access of the round is in range. -/
def TouchesMembers (ret : Int) (pulls : Nat → Pull) (mixer : AudioConfMix Node) : Prop :=
  ∀ access ∈ mixer.roundAccesses ret pulls, access.InRange mixer.mNodeList.length

theorem headAccesses_inRange (count : Nat) :
    ∀ access ∈ headAccesses, access.InRange count := by
  intro access haccess
  obtain ⟨i, hi, hslot⟩ := List.mem_flatMap.mp haccess
  have hbound : i < maxMixObject := List.mem_range.mp hi
  simp only [List.mem_cons, List.not_mem_nil, or_false] at hslot
  rcases hslot with rfl | rfl <;> exact hbound

theorem mixAccesses_inRange (count : Nat) :
    ∀ access ∈ mixAccesses, access.InRange count := by
  intro access haccess
  have hinput : access ∈ (List.range maxMixObject).map .audioIn → access.InRange count := by
    intro hmem
    obtain ⟨i, hi, rfl⟩ := List.mem_map.mp hmem
    exact List.mem_range.mp hi
  rcases List.mem_append.mp haccess with hinputs | hsub
  · rcases List.mem_append.mp hinputs with hpre | hadd
    · exact hinput hpre
    · exact hinput hadd
  · exact headAccesses_inRange count access hsub

/-- The pull loop stays in a list that fits into the arrays. The induction is on
the rest of the list, whose first node stands at position `i`. -/
theorem pullAccesses_inRange (pulls : Nat → Pull) {count : Nat} (hcount : count ≤ maxMixObject)
    (members : List (Member Node)) (i : Nat) (ret : Int) (hrest : i + members.length ≤ count) :
    ∀ access ∈ (pullAccesses pulls members i ret).2, access.InRange count := by
  induction members generalizing i ret with
  | nil => simp [pullAccesses]
  | cons member members ih =>
      rw [List.length_cons] at hrest
      have hnode : i < count := by omega
      have hslot : i < maxMixObject := hnode.trans_le hcount
      have hlater := ih (i + 1) (pulls i).ret (by omega)
      rw [pullAccesses]
      split_ifs with hret
      · simp [Access.InRange, hnode, hslot]
      · intro access haccess
        rcases List.mem_append.mp haccess with hhere | hthere
        · simp only [List.mem_cons, List.not_mem_nil, or_false] at hhere
          rcases hhere with rfl | rfl | rfl | rfl | rfl
          · exact hnode
          all_goals exact hslot
        · exact hlater access hthere

theorem pushAccesses_inRange {count : Nat} (hcount : count ≤ maxMixObject)
    (members : List (Member Node)) (i : Nat) (hrest : i + members.length ≤ count) :
    ∀ access ∈ pushAccesses members i, access.InRange count := by
  induction members generalizing i with
  | nil => simp [pushAccesses]
  | cons member members ih =>
      rw [List.length_cons] at hrest
      have hnode : i < count := by omega
      have hslot : i < maxMixObject := hnode.trans_le hcount
      intro access haccess
      rcases List.mem_append.mp haccess with hhere | hthere
      · simp only [List.mem_cons, List.not_mem_nil, or_false] at hhere
        rcases hhere with rfl | rfl | rfl | rfl
        · exact hslot
        · exact hslot
        · exact hnode
        · exact hslot
      · exact ih (i + 1) (by omega) access hthere

/-- A mixing round is in range with any list that fits into the arrays, however
the nodes answer. -/
theorem touchesMembers_mixing (ret : Int) (pulls : Nat → Pull) {mixer : AudioConfMix Node}
    (hlength : mixer.mNodeList.length ≤ maxMixObject) (hclients : mixer.mClientNum ≠ 0) :
    TouchesMembers ret pulls mixer := by
  intro access haccess
  rw [roundAccesses, if_pos hclients] at haccess
  rcases List.mem_append.mp haccess with hhead | hbranch
  · exact headAccesses_inRange _ access hhead
  · rcases List.mem_append.mp hbranch with hpull | hmix
    · exact pullAccesses_inRange pulls hlength _ 0 ret (by omega) access hpull
    · split_ifs at hmix with hret
      · exact absurd hmix List.not_mem_nil
      · simp only [List.mem_append, List.mem_cons, List.not_mem_nil, or_false] at hmix
        rcases hmix with ((rfl | rfl) | hmix) | hpush
        · exact (by decide : 0 < maxMixObject)
        · exact (by decide : 0 < maxMixObject)
        · exact mixAccesses_inRange _ access hmix
        · exact pushAccesses_inRange hlength _ 0 (by omega) access hpush

/-- A loopback round is in range when both of its nodes are there. -/
theorem touchesMembers_loopback (ret : Int) (pulls : Nat → Pull) {mixer : AudioConfMix Node}
    (hclients : mixer.mClientNum = 0) :
    TouchesMembers ret pulls mixer ↔ 2 ≤ mixer.mNodeList.length := by
  have hround : mixer.roundAccesses ret pulls = headAccesses ++ loopbackAccesses := by
    rw [roundAccesses, if_neg (not_not_intro hclients)]
  rw [TouchesMembers, hround]
  constructor
  · intro htouch
    exact htouch (.node 1) (List.mem_append_right _ (by decide))
  · intro htwo access haccess
    rcases List.mem_append.mp haccess with hhead | hloop
    · exact headAccesses_inRange _ access hhead
    · simp only [loopbackAccesses, List.mem_cons, List.not_mem_nil, or_false] at hloop
      rcases hloop with rfl | rfl | rfl | rfl | rfl | rfl | rfl | rfl <;>
        simp only [Access.InRange, maxMixObject] <;> omega

theorem touchesMembers_iff (ret : Int) (pulls : Nat → Pull) {mixer : AudioConfMix Node}
    (hlength : mixer.mNodeList.length ≤ maxMixObject) :
    TouchesMembers ret pulls mixer ↔ mixer.mClientNum ≠ 0 ∨ 2 ≤ mixer.mNodeList.length := by
  by_cases hclients : mixer.mClientNum = 0
  · simp [touchesMembers_loopback ret pulls hclients, hclients]
  · simp [touchesMembers_mixing ret pulls hlength hclients, hclients]

/-- The round of the model has a result exactly when all accesses of the round
are in range. -/
theorem threadRound_isSome_iff (mSampleLen : Nat) (ret : Int) (pulls : Nat → Pull)
    {mixer : AudioConfMix Node} (hlength : mixer.mNodeList.length ≤ maxMixObject) :
    (mixer.threadRound mSampleLen ret pulls).isSome ↔ TouchesMembers ret pulls mixer := by
  by_cases hclients : mixer.mClientNum = 0
  · have hclients' : mixer.disableSlots.mClientNum = 0 := hclients
    have hround : mixer.threadRound mSampleLen ret pulls = mixer.disableSlots.loopback pulls := by
      simp [threadRound, hclients']
    rw [hround, touchesMembers_loopback ret pulls hclients]
    constructor
    · intro hsome
      cases hlist : mixer.mNodeList with
      | nil => simp [loopback, disableSlots, hlist] at hsome
      | cons first rest =>
          cases rest with
          | nil => simp [loopback, disableSlots, hlist] at hsome
          | cons second others => simp
    · intro htwo
      obtain ⟨mixer', pushes, hdefined, _⟩ := loopback_defined pulls mixer.disableSlots htwo
      simp [hdefined]
  · obtain ⟨mixer', pushes, hdefined, _⟩ :=
      threadRound_mixing mSampleLen ret pulls hlength hclients
    simp [hdefined, touchesMembers_mixing ret pulls hlength hclients]

/-- The mixer with its thread. `mstate` tells whether the thread is in its
loop. -/
structure AudioLoop (Node : Type) where
  mixer : AudioConfMix Node
  mstate : Bool

/-- What can happen to the mixer and its thread: a node joins or leaves, `start`
is called and `run` answers `err`, the thread runs a round, or it notices that it
is asked to exit. -/
inductive LoopInput (Node : Type)
  | insert (node : Node)
  | remove (node : Node)
  | start (err : Int)
  | round (ret : Int) (pulls : Nat → Pull)
  | leave

section Runs

variable [DecidableEq Node] (kinds : NodeKinds Node) (mSampleLen : Nat)

/-- One input. A thread that is not in its loop runs no round; `start` does not
look at the list. -/
def loopStep (loop : AudioLoop Node) : LoopInput Node → Option (AudioLoop Node)
  | .insert node => some { loop with mixer := (loop.mixer.doInsertNode kinds node).2 }
  | .remove node => some { loop with mixer := (loop.mixer.doRemoveNode kinds node).2 }
  | .start err => some { loop with mstate := loop.mstate || decide (err = noError) }
  | .round ret pulls =>
      if loop.mstate then
        (loop.mixer.threadRound mSampleLen ret pulls).map fun answer =>
          { loop with mixer := answer.1 }
      else some loop
  | .leave => some { loop with mstate := false }

omit [DecidableEq Node] in
/-- The property of a run: each round of the thread touches existing members
only. -/
def RoundInRange (loop : AudioLoop Node) : LoopInput Node → Prop
  | .round ret pulls => loop.mstate → TouchesMembers ret pulls loop.mixer
  | _ => True

omit [DecidableEq Node] in
/-- Each round of the thread finds clients, or a list of two nodes or more. -/
def RoundAttended (loop : AudioLoop Node) : LoopInput Node → Prop
  | .round _ _ => loop.mstate → loop.mixer.mClientNum ≠ 0 ∨ 2 ≤ loop.mixer.mNodeList.length
  | _ => True

/-- An input keeps the list in order and within the arrays. -/
theorem loopStep_listInv {loop next : AudioLoop Node} {input : LoopInput Node}
    (hinv : ListInv kinds loop.mixer) (hattended : RoundAttended loop input)
    (hstep : loopStep kinds mSampleLen loop input = some next) : ListInv kinds next.mixer := by
  cases input with
  | insert node =>
      obtain rfl := Option.some.inj hstep
      exact doInsertNode_listInv kinds hinv node
  | remove node =>
      obtain rfl := Option.some.inj hstep
      exact doRemoveNode_listInv kinds hinv node
  | start err =>
      obtain rfl := Option.some.inj hstep
      exact hinv
  | leave =>
      obtain rfl := Option.some.inj hstep
      exact hinv
  | round ret pulls =>
      rw [loopStep] at hstep
      split_ifs at hstep with hstate
      · obtain ⟨mixer', pushes, hdefined, hinv'⟩ :=
          threadRound_listInv kinds mSampleLen ret pulls hinv (hattended hstate)
        rw [hdefined] at hstep
        obtain rfl := Option.some.inj hstep
        exact hinv'
      · obtain rfl := Option.some.inj hstep
        exact hinv

/-- Over every run of a conference, from its creation on, the rounds of the
thread touch existing members only, exactly when each of them finds clients or a
list of two nodes or more. -/
theorem rounds_inRange_iff (strong : Node → Int) (ampIn ampOut : Nat → FastmixVol)
    (rxMeta : Nat → RxMeta) (buffer : Nat → Int) (inputs : List (LoopInput Node)) :
    Promised (loopStep kinds mSampleLen) RoundInRange
        ⟨create strong ampIn ampOut rxMeta buffer, false⟩ inputs ↔
      Promised (loopStep kinds mSampleLen) RoundAttended
        ⟨create strong ampIn ampOut rxMeta buffer, false⟩ inputs := by
  apply Promised.congr_unconditional fun loop => ListInv kinds loop.mixer
  · intro loop input hinv
    cases input with
    | round ret pulls =>
        exact imp_congr_right fun _ => touchesMembers_iff ret pulls hinv.length_le
    | insert _ | remove _ | start _ | leave => exact Iff.rfl
  · intro loop input next hinv hattended hstep
    exact loopStep_listInv kinds mSampleLen hinv hattended hstep
  · exact create_listInv kinds strong ampIn ampOut rxMeta buffer

end Runs

/-- A conference that is started before anybody joins: its first round
dereferences `begin()` of an empty list. -/
theorem rounds_outOfRange :
    ¬ Promised (loopStep (⟨fun _ => 3, 3⟩ : NodeKinds Nat) 1) RoundInRange
        ⟨create (fun _ => 1) (fun _ => .mixDisable) (fun _ => .mixDisable)
          (fun _ => ⟨0, 0, none⟩) fun _ => 0, false⟩
        [.start noError, .round 0 fun _ => ⟨0, fun _ => 0, 0, 0, none⟩] := by
  rintro ⟨_, hrest⟩
  have hround := (hrest _ rfl).1
  exact absurd (hround rfl (.node 0) (List.mem_append_right _ (by decide))) (by decide)

end McuProxy.Conf.AudioConfMix
