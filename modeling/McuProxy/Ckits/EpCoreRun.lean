/-
# The life of a timed call

Two equations over the history carry the argument. Every call that was issued is
waiting, was started or was cancelled; and every call that was started or
cancelled is running or its node was recycled. Tokens are not reused within 2^28
calls, so each call is counted once, and neither equation leaves room for a
handler that runs twice or a node that is given back twice. Where the nodes are
is accounted for by the allocator: the free ones are on its ring, and those that
are out are in the queue or running.
-/

import McuProxy.Ckits.EpCore
import McuProxy.Math.Machine

namespace McuProxy.Ckits.EpCore

open McuProxy.Math McuProxy.Memory McuProxy.Time McuProxy.Time.Timeval

/-! ## What the queue does to its nodes -/

/-- Only remaining times differ, and those that were not negative are not. -/
def Retimed (before after : Nat → EventNode) : Prop :=
  ∀ node, ∃ tvRemain : Timeval, after node = { before node with tvRemain := tvRemain } ∧
    (0 ≤ (before node).tvRemain.tvSec → 0 ≤ tvRemain.tvSec)

section Queue

variable {before middle after : Nat → EventNode}

theorem Retimed.refl (nodes : Nat → EventNode) : Retimed nodes nodes :=
  fun node => ⟨(nodes node).tvRemain, rfl, id⟩

theorem Retimed.trans (hfirst : Retimed before middle) (hsecond : Retimed middle after) :
    Retimed before after := by
  intro node
  obtain ⟨tvMiddle, hmiddle, hforward⟩ := hfirst node
  obtain ⟨tvRemain, hafter, hforward'⟩ := hsecond node
  rw [hmiddle] at hafter hforward'
  exact ⟨tvRemain, hafter, fun h => hforward' (hforward h)⟩

theorem retime_retimed (nodes : Nat → EventNode) (node : Nat) {tvRemain : Timeval}
    (hforward : 0 ≤ (nodes node).tvRemain.tvSec → 0 ≤ tvRemain.tvSec) :
    Retimed nodes (retime nodes node tvRemain) := by
  intro other
  by_cases hother : other = node
  · subst hother
    exact ⟨tvRemain, by simp [retime], hforward⟩
  · exact ⟨(nodes other).tvRemain, by simp [retime, hother], id⟩

theorem Retimed.idToken (hretimed : Retimed before after) (node : Nat) :
    (after node).idToken = (before node).idToken := by
  obtain ⟨_, heq, -⟩ := hretimed node
  rw [heq]

theorem Retimed.tvSec_nonneg (hretimed : Retimed before after) {node : Nat}
    (hnode : 0 ≤ (before node).tvRemain.tvSec) : 0 ≤ (after node).tvRemain.tvSec := by
  obtain ⟨_, heq, hforward⟩ := hretimed node
  rw [heq]
  exact hforward hnode

theorem timeInterval_tvSec_nonneg (tv2 tv1 : Timeval) : 0 ≤ (timeInterval tv2 tv1).tvSec := by
  simp only [timeInterval]
  split_ifs with hborrow hnegative hnegative
  · exact le_rfl
  · exact not_lt.mp hnegative
  · exact le_rfl
  · exact not_lt.mp hnegative

theorem synchronizeQueue_retimed (timeSinceLastSync : Timeval) (queue : List Nat)
    (nodes : Nat → EventNode) :
    Retimed nodes (synchronizeQueue timeSinceLastSync queue nodes) := by
  induction queue generalizing timeSinceLastSync nodes with
  | nil => exact Retimed.refl nodes
  | cons cur rest ih =>
      rw [synchronizeQueue]
      split
      · exact (retime_retimed nodes cur fun _ => le_rfl).trans (ih _ _)
      · exact retime_retimed nodes cur fun _ => timeInterval_tvSec_nonneg _ _

theorem addQueue_retimed (newEntry : Nat) (queue : List Nat) (nodes : Nat → EventNode) :
    Retimed nodes (addQueue newEntry queue nodes).2 := by
  induction queue generalizing nodes with
  | nil => exact Retimed.refl nodes
  | cons cur rest ih =>
      rw [addQueue]
      split
      · exact (retime_retimed nodes newEntry fun _ => timeInterval_tvSec_nonneg _ _).trans (ih _)
      · exact retime_retimed nodes cur fun _ => timeInterval_tvSec_nonneg _ _

theorem addQueue_perm (newEntry : Nat) (queue : List Nat) (nodes : Nat → EventNode) :
    (addQueue newEntry queue nodes).1.Perm (newEntry :: queue) := by
  induction queue generalizing nodes with
  | nil => exact List.Perm.refl _
  | cons cur rest ih =>
      rw [addQueue]
      split
      · exact ((ih _).cons cur).trans (List.Perm.swap newEntry cur rest)
      · exact List.Perm.refl _

theorem carryOver_tvSec (next entry : Timeval) :
    next.tvSec + entry.tvSec ≤ (carryOver next entry).tvSec := by
  simp only [carryOver]
  split
  · exact Int.le_add_one le_rfl
  · exact le_rfl

end Queue

/-! ## Counting events -/

/-- Whether an event issues, starts, cancels or recycles the call of a token. -/
def issues (token : Nat) : EpEvent → Bool
  | .issued other _ _ _ => other = token
  | _ => false

def runs (token : Nat) : EpEvent → Bool
  | .ran other _ _ => other = token
  | _ => false

def cancels (token : Nat) : EpEvent → Bool
  | .cancelled other => other = token
  | _ => false

def recycles (token : Nat) : EpEvent → Bool
  | .recycled other _ => other = token
  | _ => false

def isIssued : EpEvent → Bool
  | .issued _ _ _ _ => true
  | _ => false

/-- What holds of every history: a token is issued once, tokens are counted up from
one, and what is run or recycled was issued. -/
structure Recorded (history : List EpEvent) : Prop where
  issued_le : ∀ token, history.countP (issues token) ≤ 1
  issued_bound : ∀ token, 0 < history.countP (issues token) → token ≤ history.countP isIssued
  ran : ∀ token handler param, .ran token handler param ∈ history →
    ∃ node, .issued token node handler param ∈ history
  recycled : ∀ token node, .recycled token node ∈ history →
    ∃ handler param, .issued token node handler param ∈ history

section History

variable {history : List EpEvent}

theorem Recorded.append_issued (hrecorded : Recorded history) (node handler param : Nat) :
    Recorded (history ++ [.issued (history.countP isIssued + 1) node handler param]) where
  issued_le := by
    intro token
    have hle := hrecorded.issued_le token
    have hbound := hrecorded.issued_bound token
    simp only [List.countP_append, List.countP_singleton, issues, decide_eq_true_eq]
    split_ifs <;> omega
  issued_bound := by
    intro token htoken
    have hbound := hrecorded.issued_bound token
    simp only [List.countP_append, List.countP_singleton, issues, isIssued,
      decide_eq_true_eq] at htoken ⊢
    split_ifs at htoken ⊢ <;> omega
  ran := by
    intro token other param' hran
    obtain ⟨node', hnode⟩ := hrecorded.ran token other param' (by simpa using hran)
    exact ⟨node', List.mem_append_left _ hnode⟩
  recycled := by
    intro token node' hrecycled
    obtain ⟨handler', param', hissued⟩ := hrecorded.recycled token node' (by simpa using hrecycled)
    exact ⟨handler', param', List.mem_append_left _ hissued⟩

/-- Any other event only has to be about a call that was issued. -/
theorem Recorded.append (hrecorded : Recorded history) {event : EpEvent}
    (hother : isIssued event = false)
    (hran : ∀ token handler param, event = .ran token handler param →
      ∃ node, .issued token node handler param ∈ history)
    (hrecycled : ∀ token node, event = .recycled token node →
      ∃ handler param, .issued token node handler param ∈ history) :
    Recorded (history ++ [event]) := by
  have hissues : ∀ token, issues token event = false := by
    intro token
    cases event <;> simp_all [issues, isIssued]
  refine ⟨fun token => ?_, fun token htoken => ?_, fun token handler param hmem => ?_,
    fun token node hmem => ?_⟩
  · simpa [hissues] using hrecorded.issued_le token
  · simpa [hother] using hrecorded.issued_bound token (by simpa [hissues] using htoken)
  · obtain ⟨node, hnode⟩ : ∃ node, .issued token node handler param ∈ history := by
      rcases List.mem_append.mp hmem with hold | hnew
      · exact hrecorded.ran token handler param hold
      · exact hran token handler param (List.mem_singleton.mp hnew).symm
    exact ⟨node, List.mem_append_left _ hnode⟩
  · obtain ⟨handler, param, hissued⟩ :
        ∃ handler param, .issued token node handler param ∈ history := by
      rcases List.mem_append.mp hmem with hold | hnew
      · exact hrecorded.recycled token node hold
      · exact hrecycled token node (List.mem_singleton.mp hnew).symm
    exact ⟨handler, param, List.mem_append_left _ hissued⟩

end History

/-- The tokens of the calls that wait. -/
def waiting (core : EpCore) : List Nat := core.queue.map fun node => (core.nodes node).idToken

/-- The token of the call that runs. -/
def running (core : EpCore) : List Nat :=
  core.firing.toList.map fun node => (core.nodes node).idToken

variable (layout : EpLayout)

/-- What holds between any two steps, with the ring of free nodes. -/
structure EpInv (core : EpCore) (free : List Nat) : Prop where
  shared : Slot.Shared core.mem layout.epTimeEventAlloc sizeofAlarmEventNode (2 * concretLimit)
    layout.theEventNodes free (core.queue ++ core.firing.toList)
  forward : ∀ node ∈ core.queue, 0 ≤ (core.nodes node).tvRemain.tvSec
  head : 0 < core.headRemain.tvSec
  callback : ∀ node ∈ core.queue, (core.nodes node).cbTimeout = layout.epTimeOutHandler
  scheduled : ∀ node ∈ core.queue ++ core.firing.toList,
    .issued (core.nodes node).idToken node (core.nodes node).reserved (core.nodes node).cbParam ∈
      core.history
  recorded : Recorded core.history
  listToken : core.listToken = (core.history.countP isIssued + 1) % 268435456
  /-- A call that was issued waits, was started or was cancelled. -/
  started : ∀ token, core.history.countP (runs token) + core.history.countP (cancels token) +
    core.waiting.count token = core.history.countP (issues token)
  /-- A call that was started or cancelled runs, or its node was recycled. -/
  finished : ∀ token, core.history.countP (recycles token) + core.running.count token =
    core.history.countP (runs token) + core.history.countP (cancels token)

/-! ## Steps -/

section Steps

variable {layout} {core : EpCore} {free : List Nat}

theorem waiting_retimed {nodes : Nat → EventNode} (hretimed : Retimed core.nodes nodes) :
    (core.queue.map fun node => (nodes node).idToken) = core.waiting :=
  List.map_congr_left fun node _ => hretimed.idToken node

theorem running_retimed {nodes : Nat → EventNode} (hretimed : Retimed core.nodes nodes) :
    (core.firing.toList.map fun node => (nodes node).idToken) = core.running :=
  List.map_congr_left fun node _ => hretimed.idToken node

/-- Time passes, and nothing else happens. -/
theorem EpInv.retimed (hinv : EpInv layout core free) {nodes : Nat → EventNode}
    (hretimed : Retimed core.nodes nodes) {headRemain : Timeval}
    (hhead : core.headRemain.tvSec ≤ headRemain.tvSec) (tvLastSync : Timeval) :
    EpInv layout { core with
      nodes := nodes, headRemain := headRemain, tvLastSync := tvLastSync } free where
  shared := hinv.shared
  forward := fun node hnode => hretimed.tvSec_nonneg (hinv.forward node hnode)
  head := hinv.head.trans_le hhead
  callback := by
    intro node hnode
    obtain ⟨_, heq, -⟩ := hretimed node
    dsimp only
    rw [heq]
    exact hinv.callback node hnode
  scheduled := by
    intro node hnode
    obtain ⟨_, heq, -⟩ := hretimed node
    dsimp only
    rw [heq]
    exact hinv.scheduled node hnode
  recorded := hinv.recorded
  listToken := hinv.listToken
  started := by
    intro token
    simp only [waiting, waiting_retimed hretimed]
    exact hinv.started token
  finished := by
    intro token
    simp only [running, running_retimed hretimed]
    exact hinv.finished token

theorem EpInv.synchronize (hinv : EpInv layout core free) (timeNow : Timeval) :
    EpInv layout (core.synchronize timeNow) free :=
  hinv.retimed (synchronizeQueue_retimed _ _ _) le_rfl timeNow

/-- A cancellation finds no call and changes nothing but times, or it takes the
call with the token out of the queue and recycles its node. -/
theorem epCancelCall_cases (hinv : EpInv layout core free) (timeNow : Timeval) (token : Int) :
    ∃ nodes headRemain, Retimed core.nodes nodes ∧ core.headRemain.tvSec ≤ headRemain.tvSec ∧
      (core.epCancelCall layout timeNow token = (-1, { core with
          nodes := nodes, headRemain := headRemain, tvLastSync := timeNow }) ∨
        ∃ entry ∈ core.queue, (nodes entry).idToken = (token % 4294967296).toNat ∧
          core.epCancelCall layout timeNow token = (0, { core with
            mem := Slot.slotFree core.mem layout.epTimeEventAlloc entry
            nodes := nodes
            headRemain := headRemain
            tvLastSync := timeNow
            queue := core.queue.erase entry
            history := core.history ++ [.recycled (nodes entry).idToken entry] })) := by
  have hsync : Retimed core.nodes (core.synchronize timeNow).nodes :=
    synchronizeQueue_retimed _ _ _
  simp only [epCancelCall, delAlarmEventNode]
  cases hquery : (core.synchronize timeNow).queryAlarmEventNode (token % 4294967296).toNat with
  | none => exact ⟨_, core.headRemain, hsync, le_rfl, .inl rfl⟩
  | some entry =>
      have hentry : entry ∈ core.queue := List.mem_of_find?_eq_some hquery
      have htoken : ((core.synchronize timeNow).nodes entry).idToken =
          (token % 4294967296).toNat := by
        simpa [eq_comm] using List.find?_some hquery
      have hforward : 0 ≤ ((core.synchronize timeNow).nodes entry).tvRemain.tvSec :=
        hsync.tvSec_nonneg (hinv.forward entry hentry)
      dsimp only
      cases hnext : successor entry (core.synchronize timeNow).queue with
      | none =>
          have hcarry := carryOver_tvSec core.headRemain
            ((core.synchronize timeNow).nodes entry).tvRemain
          exact ⟨_, carryOver core.headRemain ((core.synchronize timeNow).nodes entry).tvRemain,
            hsync, by omega, .inr ⟨entry, hentry, htoken, rfl⟩⟩
      | some next =>
          have hcarried : Retimed (core.synchronize timeNow).nodes (retime
              (core.synchronize timeNow).nodes next (carryOver
                ((core.synchronize timeNow).nodes next).tvRemain
                ((core.synchronize timeNow).nodes entry).tvRemain)) := by
            refine retime_retimed _ _ fun hnonneg => ?_
            have hcarry := carryOver_tvSec ((core.synchronize timeNow).nodes next).tvRemain
              ((core.synchronize timeNow).nodes entry).tvRemain
            omega
          exact ⟨_, core.headRemain, hsync.trans hcarried, le_rfl,
            .inr ⟨entry, hentry, (hcarried.idToken entry).trans htoken, rfl⟩⟩

/-- An alarm changes nothing but times, or it takes the first node out of the
queue and starts its handler. -/
theorem handleAlarmEvent_cases (hinv : EpInv layout core free) (timeNow : Timeval) :
    ∃ nodes tvLastSync, Retimed core.nodes nodes ∧
      (core.handleAlarmEvent timeNow = some { core with nodes := nodes, tvLastSync := tvLastSync } ∨
        ∃ cur rest, core.queue = cur :: rest ∧ core.handleAlarmEvent timeNow = some { core with
          nodes := nodes
          tvLastSync := tvLastSync
          queue := rest
          firing := some cur
          history := core.history ++
            [.ran (nodes cur).idToken (nodes cur).reserved (nodes cur).cbParam] }) := by
  -- the queue with its clock set or not
  obtain ⟨nodes, tvLastSync, hretimed, hcore⟩ : ∃ nodes tvLastSync, Retimed core.nodes nodes ∧
      (if core.firstRemain.tvSec ≠ 0 ∨ core.firstRemain.tvUsec ≠ 0 then core.synchronize timeNow
        else core) = { core with nodes := nodes, tvLastSync := tvLastSync } := by
    split
    · exact ⟨_, timeNow, synchronizeQueue_retimed _ _ _, rfl⟩
    · exact ⟨core.nodes, core.tvLastSync, Retimed.refl _, rfl⟩
  refine ⟨nodes, tvLastSync, hretimed, ?_⟩
  simp only [handleAlarmEvent, hcore]
  split
  · rename_i hdue
    cases hqueue : core.queue with
    | nil =>
        have hhead := hinv.head
        simp only [firstRemain, hqueue] at hdue
        omega
    | cons cur rest =>
        have hcallback : (nodes cur).cbTimeout ≠ 0 := by
          obtain ⟨_, heq, -⟩ := hretimed cur
          rw [heq]
          have hcur := hinv.callback cur (hqueue ▸ List.mem_cons_self)
          exact hcur ▸ layout.handler_pos.ne'
        exact .inr ⟨cur, rest, rfl, by simp only [hcallback, ne_eq, not_false_eq_true, if_true]⟩
  · exact .inl rfl

/-- The node of a call that was taken out of the queue goes back. -/
theorem EpInv.withdrawn (hinv : EpInv layout core free) {entry : Nat}
    (hentry : entry ∈ core.queue) :
    EpInv layout { core with
      mem := Slot.slotFree core.mem layout.epTimeEventAlloc entry
      queue := core.queue.erase entry
      history := core.history ++ [.recycled (core.nodes entry).idToken entry] ++
        [.cancelled (core.nodes entry).idToken] } (free ++ [entry]) where
  shared := by
    have hperm : (core.queue ++ core.firing.toList).Perm
        (entry :: (core.queue.erase entry ++ core.firing.toList)) :=
      (List.perm_cons_erase hentry).append_right _
    exact (hinv.shared.perm hperm).slotFree layout.laid
  forward := fun node hnode => hinv.forward node (List.mem_of_mem_erase hnode)
  head := hinv.head
  callback := fun node hnode => hinv.callback node (List.mem_of_mem_erase hnode)
  scheduled := by
    intro node hnode
    have hold : node ∈ core.queue ++ core.firing.toList :=
      (List.erase_sublist.append_right _).subset hnode
    simp [hinv.scheduled node hold]
  recorded := by
    have hissued := hinv.scheduled entry (List.mem_append_left _ hentry)
    have hrecycled : Recorded (core.history ++ [.recycled (core.nodes entry).idToken entry]) := by
      refine hinv.recorded.append rfl nofun fun token node heq => ?_
      obtain ⟨rfl, rfl⟩ := EpEvent.recycled.inj heq
      exact ⟨_, _, hissued⟩
    exact hrecycled.append rfl nofun nofun
  listToken := by simpa [isIssued] using hinv.listToken
  started := by
    intro token
    have hwaiting : core.waiting.Perm ((core.nodes entry).idToken ::
        (core.queue.erase entry).map fun node => (core.nodes node).idToken) :=
      (List.perm_cons_erase hentry).map _
    have hcount := hinv.started token
    rw [hwaiting.count_eq, List.count_cons] at hcount
    simp only [waiting, List.countP_append, List.countP_singleton, runs, cancels, issues,
      beq_iff_eq, decide_eq_true_eq, Bool.false_eq_true, if_false] at hcount ⊢
    split_ifs at hcount ⊢ <;> omega
  finished := by
    intro token
    have hcount := hinv.finished token
    simp only [running, List.countP_append, List.countP_singleton, runs, cancels, recycles,
      decide_eq_true_eq, Bool.false_eq_true, if_false] at hcount ⊢
    split_ifs <;> omega

/-- The first node of the queue is started. -/
theorem EpInv.fired (hinv : EpInv layout core free) (hidle : core.firing = none) {cur : Nat}
    {rest : List Nat} (hqueue : core.queue = cur :: rest) :
    EpInv layout { core with
      queue := rest
      firing := some cur
      history := core.history ++
        [.ran (core.nodes cur).idToken (core.nodes cur).reserved (core.nodes cur).cbParam] }
      free where
  shared := by
    have hperm : (core.queue ++ core.firing.toList).Perm (rest ++ (some cur).toList) := by
      rw [hqueue, hidle]
      simpa using (List.perm_append_singleton cur rest).symm
    exact hinv.shared.perm hperm
  forward := fun node hnode => hinv.forward node (hqueue ▸ List.mem_cons_of_mem _ hnode)
  head := hinv.head
  callback := fun node hnode => hinv.callback node (hqueue ▸ List.mem_cons_of_mem _ hnode)
  scheduled := by
    intro node hnode
    have hold : node ∈ core.queue ++ core.firing.toList := by
      rw [hqueue, hidle]
      simp only [Option.toList_some, List.mem_append, List.mem_singleton] at hnode
      simpa [or_comm] using hnode
    simp [hinv.scheduled node hold]
  recorded := by
    refine hinv.recorded.append rfl (fun token handler param heq => ?_) nofun
    obtain ⟨rfl, rfl, rfl⟩ := EpEvent.ran.inj heq
    exact ⟨cur, hinv.scheduled cur (by simp [hqueue])⟩
  listToken := by simpa [isIssued] using hinv.listToken
  started := by
    intro token
    have hcount := hinv.started token
    simp only [waiting, hqueue, List.map_cons, List.count_cons, List.countP_append,
      List.countP_singleton, runs, cancels, issues, beq_iff_eq, decide_eq_true_eq,
      Bool.false_eq_true, if_false] at hcount ⊢
    split_ifs at hcount ⊢ <;> omega
  finished := by
    intro token
    have hcount := hinv.finished token
    simp only [running, hidle, Option.toList_none, Option.toList_some, List.map_cons, List.map_nil,
      List.count_nil, List.count_cons, List.countP_append, List.countP_singleton, runs, cancels,
      recycles, beq_iff_eq, decide_eq_true_eq, Bool.false_eq_true, if_false] at hcount ⊢
    split_ifs <;> omega

/-- The handler returns, and its node goes back. -/
theorem EpInv.returned (hinv : EpInv layout core free) {node : Nat}
    (hfiring : core.firing = some node) :
    EpInv layout (core.handlerReturned layout node) (free ++ [node]) where
  shared := by
    have hperm : (core.queue ++ core.firing.toList).Perm (node :: (core.queue ++ [])) := by
      rw [hfiring, List.append_nil]
      exact List.perm_append_singleton node core.queue
    exact (hinv.shared.perm hperm).slotFree layout.laid
  forward := hinv.forward
  head := hinv.head
  callback := hinv.callback
  scheduled := by
    intro other hother
    have hold : other ∈ core.queue ++ core.firing.toList := by
      simp only [handlerReturned, epFactoryRecyleTimeEvent, Option.toList_none,
        List.append_nil] at hother
      exact List.mem_append_left _ hother
    simp [handlerReturned, epFactoryRecyleTimeEvent, hinv.scheduled other hold]
  recorded := by
    refine hinv.recorded.append rfl nofun fun token other heq => ?_
    obtain ⟨rfl, rfl⟩ := EpEvent.recycled.inj heq
    exact ⟨_, _, hinv.scheduled node (by simp [hfiring])⟩
  listToken := by
    simpa [handlerReturned, epFactoryRecyleTimeEvent, isIssued] using hinv.listToken
  started := by
    intro token
    simpa [handlerReturned, epFactoryRecyleTimeEvent, waiting, runs, cancels, issues]
      using hinv.started token
  finished := by
    intro token
    have hcount := hinv.finished token
    simp only [handlerReturned, epFactoryRecyleTimeEvent, running, hfiring, Option.toList_none,
      Option.toList_some, List.map_cons, List.map_nil, List.count_nil, List.count_cons,
      List.countP_append, List.countP_singleton, runs, cancels, recycles, beq_iff_eq,
      decide_eq_true_eq, Bool.false_eq_true, if_false] at hcount ⊢
    split_ifs at hcount ⊢ <;> omega

/-- One node has been filled in for the next call, and the others are at most
retimed. -/
structure Filled (layout : EpLayout) (core : EpCore) (newEntry : Nat)
    (nodes : Nat → EventNode) : Prop where
  forward : 0 ≤ (nodes newEntry).tvRemain.tvSec
  callback : (nodes newEntry).cbTimeout = layout.epTimeOutHandler
  token : (nodes newEntry).idToken = core.listToken
  others : ∀ node ≠ newEntry, ∃ tvRemain : Timeval,
    nodes node = { core.nodes node with tvRemain := tvRemain } ∧
    (0 ≤ (core.nodes node).tvRemain.tvSec → 0 ≤ tvRemain.tvSec)

section Added

variable {newEntry : Nat} {nodes : Nat → EventNode}

/-- The node of the new call is none of those in use. -/
theorem notMem_of_shared {mem : Mem} {rest used : List Nat}
    (hshared : Slot.Shared mem layout.epTimeEventAlloc sizeofAlarmEventNode (2 * concretLimit)
      layout.theEventNodes rest (newEntry :: used)) : newEntry ∉ used :=
  (List.nodup_cons.mp (List.Nodup.of_append_right hshared.nodup)).1

theorem Filled.idTokens (hfilled : Filled layout core newEntry nodes) {list : List Nat}
    (hlist : newEntry ∉ list) : list.map (fun node => (nodes node).idToken) =
      list.map fun node => (core.nodes node).idToken := by
  refine List.map_congr_left fun node hnode => ?_
  obtain ⟨_, heq, -⟩ := hfilled.others node (ne_of_mem_of_not_mem hnode hlist)
  rw [heq]

theorem Filled.queue_forward (hfilled : Filled layout core newEntry nodes)
    (hinv : EpInv layout core free) (hfresh : newEntry ∉ core.queue) {node : Nat}
    (hnode : node ∈ newEntry :: core.queue) : 0 ≤ (nodes node).tvRemain.tvSec := by
  rcases List.mem_cons.mp hnode with rfl | hold
  · exact hfilled.forward
  · obtain ⟨_, heq, hnonneg⟩ := hfilled.others node (ne_of_mem_of_not_mem hold hfresh)
    rw [heq]
    exact hnonneg (hinv.forward node hold)

theorem Filled.queue_callback (hfilled : Filled layout core newEntry nodes)
    (hinv : EpInv layout core free) (hfresh : newEntry ∉ core.queue) {node : Nat}
    (hnode : node ∈ newEntry :: core.queue) :
    (nodes node).cbTimeout = layout.epTimeOutHandler := by
  rcases List.mem_cons.mp hnode with rfl | hold
  · exact hfilled.callback
  · obtain ⟨_, heq, -⟩ := hfilled.others node (ne_of_mem_of_not_mem hold hfresh)
    rw [heq]
    exact hinv.callback node hold

/-- Every node in use was issued with what it holds, the new one included. -/
theorem Filled.scheduled (hfilled : Filled layout core newEntry nodes)
    (hinv : EpInv layout core free) (hfresh : newEntry ∉ core.queue ++ core.firing.toList)
    {node : Nat} (hnode : node ∈ newEntry :: (core.queue ++ core.firing.toList)) :
    .issued (nodes node).idToken node (nodes node).reserved (nodes node).cbParam ∈
      core.history ++
        [.issued core.listToken newEntry (nodes newEntry).reserved (nodes newEntry).cbParam] := by
  rcases List.mem_cons.mp hnode with rfl | hold
  · rw [hfilled.token]
    exact List.mem_append_right _ (List.mem_singleton.mpr rfl)
  · obtain ⟨_, heq, -⟩ := hfilled.others node (ne_of_mem_of_not_mem hold hfresh)
    rw [heq]
    exact List.mem_append_left _ (hinv.scheduled node hold)

/-- The tokens in the queue are the ones that waited and the new one. -/
theorem Filled.waiting_perm (hfilled : Filled layout core newEntry nodes)
    (hfresh : newEntry ∉ core.queue) {queue : List Nat}
    (hqueue : queue.Perm (newEntry :: core.queue)) :
    (queue.map fun node => (nodes node).idToken).Perm (core.listToken :: core.waiting) := by
  have hmap := hqueue.map fun node => (nodes node).idToken
  rwa [List.map_cons, hfilled.token, hfilled.idTokens hfresh] at hmap

/-- A free node is given a call and is put into the queue. -/
theorem EpInv.added (hinv : EpInv layout core free)
    (hfew : core.history.countP isIssued + 1 < 268435456) {rest queue : List Nat} {mem : Mem}
    (hshared : Slot.Shared mem layout.epTimeEventAlloc sizeofAlarmEventNode (2 * concretLimit)
      layout.theEventNodes rest (newEntry :: (core.queue ++ core.firing.toList)))
    (hqueue : queue.Perm (newEntry :: core.queue))
    (hfilled : Filled layout core newEntry nodes) (tvLastSync : Timeval) :
    EpInv layout { core with
      mem := mem
      queue := queue
      nodes := nodes
      listToken := (core.listToken + 1) &&& 0x0FFFFFFF
      tvLastSync := tvLastSync
      history := core.history ++
        [.issued core.listToken newEntry (nodes newEntry).reserved (nodes newEntry).cbParam] }
      rest := by
  have hlistToken : core.listToken = core.history.countP isIssued + 1 := by
    rw [hinv.listToken, Nat.mod_eq_of_lt hfew]
  have hfresh : newEntry ∉ core.queue ++ core.firing.toList := notMem_of_shared hshared
  have hfreshQueue : newEntry ∉ core.queue := fun h => hfresh (List.mem_append_left _ h)
  have hfreshFiring : newEntry ∉ core.firing.toList := fun h => hfresh (List.mem_append_right _ h)
  have hused : (queue ++ core.firing.toList).Perm
      (newEntry :: (core.queue ++ core.firing.toList)) := hqueue.append_right _
  constructor
  case shared => exact hshared.perm hused.symm
  case forward =>
    intro node hnode
    exact hfilled.queue_forward hinv hfreshQueue (hqueue.mem_iff.mp hnode)
  case head => exact hinv.head
  case callback =>
    intro node hnode
    exact hfilled.queue_callback hinv hfreshQueue (hqueue.mem_iff.mp hnode)
  case scheduled =>
    intro node hnode
    exact hfilled.scheduled hinv hfresh (hused.mem_iff.mp hnode)
  case recorded =>
    rw [hlistToken]
    exact hinv.recorded.append_issued _ _ _
  case listToken =>
    have hmask := Nat.and_two_pow_sub_one_eq_mod (core.listToken + 1) 28
    simp only [List.countP_append, List.countP_singleton, isIssued, if_true]
    rw [hlistToken] at hmask ⊢
    exact hmask
  case started =>
    intro token
    have hcount := hinv.started token
    simp only [waiting]
    rw [(hfilled.waiting_perm hfreshQueue hqueue).count_eq, List.count_cons]
    simp only [List.countP_append, List.countP_singleton, runs, cancels, issues, beq_iff_eq,
      decide_eq_true_eq, Bool.false_eq_true, if_false]
    split_ifs <;> omega
  case finished =>
    intro token
    have hcount := hinv.finished token
    simp only [running, hfilled.idTokens hfreshFiring, List.countP_append,
      List.countP_singleton, runs, cancels, recycles, Bool.false_eq_true, if_false] at hcount ⊢
    omega

end Added

/-- A node that is filled in, goes through the loops of the queue and is given the
next token. -/
theorem Filled.of_retimed {newEntry : Nat} {node : EventNode} {retimed : Nat → EventNode}
    (hretimed : Retimed (Function.update core.nodes newEntry node) retimed)
    (hforward : 0 ≤ node.tvRemain.tvSec) (hcallback : node.cbTimeout = layout.epTimeOutHandler) :
    Filled layout core newEntry
      (Function.update retimed newEntry { retimed newEntry with idToken := core.listToken }) := by
  obtain ⟨tvRemain, hnew, hnonneg⟩ := hretimed newEntry
  rw [Function.update_self] at hnew hnonneg
  constructor
  case forward =>
    rw [Function.update_self, hnew]
    exact hnonneg hforward
  case callback => rw [Function.update_self, hnew, hcallback]
  case token => rw [Function.update_self]
  case others =>
    intro other hother
    have hkept := hretimed other
    rw [Function.update_of_ne hother] at hkept
    rwa [Function.update_of_ne hother]

/-- A call is refused because there is no handler or no free node, or it is
scheduled with the first free node. -/
theorem EpInv.epCallLater (hinv : EpInv layout core free)
    (hfew : core.history.countP isIssued + 1 < 268435456) (timeNow : Timeval)
    {seconds : Int} (hseconds : 0 ≤ seconds) (useconds : Int) (handler param : Nat) :
    ((handler = 0 ∨ free = []) ∧
        core.epCallLater layout timeNow seconds useconds handler param = (-1, core)) ∨
      ∃ newEntry rest next, free = newEntry :: rest ∧
        core.epCallLater layout timeNow seconds useconds handler param =
          ((core.listToken : Int), next) ∧
        next.history = core.history ++ [.issued core.listToken newEntry handler param] ∧
        EpInv layout next rest := by
  by_cases hhandler : handler = 0
  · exact .inl ⟨.inl hhandler, by simp [EpCore.epCallLater, hhandler]⟩
  · cases free with
    | nil =>
        have hmalloc := Slot.slotMalloc_nil hinv.shared.ring sizeofAlarmEventNode
        exact .inl ⟨.inr rfl, by simp [EpCore.epCallLater, hhandler, hmalloc]⟩
    | cons newEntry rest =>
        obtain ⟨mem, hmalloc, hshared⟩ := hinv.shared.slotMalloc layout.laid
        have hnull : newEntry ≠ 0 := by
          have hslot := Slot.mem_slotsFrom (hshared.mem_slots (List.mem_append_right rest
            (List.mem_cons_self (a := newEntry) (l := core.queue ++ core.firing.toList))))
          have hbelow := layout.laid.below
          omega
        -- the node as it is filled in, and after the loops of the queue
        let node : EventNode := { core.nodes newEntry with
          tvRemain := ⟨seconds, useconds⟩
          cbTimeout := layout.epTimeOutHandler
          cbParam := param
          reserved := handler }
        let synced := synchronizeQueue (timeInterval timeNow core.tvLastSync) core.queue
          (Function.update core.nodes newEntry node)
        have hretimed := (synchronizeQueue_retimed _ _ _).trans
          (addQueue_retimed newEntry core.queue synced)
        obtain ⟨tvRemain, hnew, -⟩ := hretimed newEntry
        rw [Function.update_self] at hnew
        let added := (addQueue newEntry core.queue synced).2
        let nodes := Function.update added newEntry
          { added newEntry with idToken := core.listToken }
        -- the loops leave the handler and its argument as they were passed
        have hself : nodes newEntry =
            { node with tvRemain := tvRemain, idToken := core.listToken } := by
          simp only [nodes, added, Function.update_self, hnew]
        have hfilled : Filled layout core newEntry nodes :=
          Filled.of_retimed hretimed hseconds rfl
        have hadded := hinv.added hfew hshared (addQueue_perm newEntry core.queue synced) hfilled
          timeNow
        rw [hself] at hadded
        refine .inr ⟨newEntry, rest, _, rfl, ?_, rfl, hadded⟩
        simp only [EpCore.epCallLater, hhandler, hmalloc, hnull, if_false]
        rfl

end Steps

/-! ## Runs -/

def isCallLater : EpCall → Bool
  | .callLater _ _ _ _ _ => true
  | _ => false

/-- The delays are not negative and normalised, an alarm is not handled while a
handler runs, and a handler returns once. -/
def Admissible (core : EpCore) : EpCall → Prop
  | .callLater _ seconds useconds _ _ => Delay ⟨seconds, useconds⟩
  | .alarm _ => core.firing = none
  | .handlerReturn => core.firing ≠ none
  | _ => True

instance (core : EpCore) : (call : EpCall) → Decidable (core.Admissible call)
  | .callLater _ seconds useconds _ _ => inferInstanceAs (Decidable (Delay ⟨seconds, useconds⟩))
  | .cancelCall _ _ => inferInstanceAs (Decidable True)
  | .timeToNext _ => inferInstanceAs (Decidable True)
  | .alarm _ => inferInstanceAs (Decidable (core.firing = none))
  | .handlerReturn => inferInstanceAs (Decidable (core.firing ≠ none))

/-- A call is refused only without a handler or without a free node. -/
def RefusalLaw (core : EpCore) (call : EpCall) : Prop :=
  ∀ timeNow seconds useconds handler param,
    call = .callLater timeNow seconds useconds handler param →
    (core.epCallLater layout timeNow seconds useconds handler param).1 = -1 →
    handler = 0 ∨ Ring core.mem 0 (Slot.freeHead layout.epTimeEventAlloc) []

section Runs

variable {layout} {core : EpCore} {free : List Nat}

/-- A step that is admissible is defined and keeps the invariant. -/
theorem EpInv.step (hinv : EpInv layout core free) {call : EpCall} (hcall : core.Admissible call)
    (hfew : core.history.countP isIssued + (if isCallLater call then 1 else 0) < 268435456) :
    ∃ next free', epStep layout core call = some next ∧ EpInv layout next free' ∧
      next.history.countP isIssued ≤
        core.history.countP isIssued + if isCallLater call then 1 else 0 := by
  cases call with
  | callLater timeNow seconds useconds handler param =>
      rcases hinv.epCallLater hfew timeNow hcall.1 useconds handler param with
        ⟨-, hrefused⟩ | ⟨newEntry, rest, next, -, hissued, hhistory, hnext⟩
      · exact ⟨core, free, by simp only [epStep, hrefused], hinv, Nat.le_add_right _ _⟩
      · refine ⟨next, rest, by simp only [epStep, hissued], hnext, ?_⟩
        simp [hhistory, isIssued, isCallLater]
  | cancelCall timeNow token =>
      obtain ⟨nodes, headRemain, hretimed, hhead, hnone | ⟨entry, hentry, htoken, hfound⟩⟩ :=
        epCancelCall_cases hinv timeNow token
      · exact ⟨_, free, by simp only [epStep, hnone]; rfl, hinv.retimed hretimed hhead timeNow,
          Nat.le_add_right _ _⟩
      · refine ⟨_, free ++ [entry], by simp only [epStep, hfound]; rfl, ?_, ?_⟩
        · rw [← htoken]
          exact (hinv.retimed hretimed hhead timeNow).withdrawn hentry
        · simp [isIssued]
  | timeToNext timeNow =>
      exact ⟨_, free, rfl, hinv.synchronize timeNow, Nat.le_add_right _ _⟩
  | alarm timeNow =>
      have hidle : core.firing = none := hcall
      have hstep : epStep layout core (.alarm timeNow) = core.handleAlarmEvent timeNow := by
        simp only [epStep, hidle]
      obtain ⟨nodes, tvLastSync, hretimed, hnone | ⟨cur, rest, hqueue, hdue⟩⟩ :=
        handleAlarmEvent_cases hinv timeNow
      · exact ⟨_, free, hstep.trans hnone, hinv.retimed hretimed le_rfl tvLastSync,
          Nat.le_add_right _ _⟩
      · refine ⟨_, free, hstep.trans hdue, ?_, by simp [isIssued]⟩
        exact (hinv.retimed hretimed le_rfl tvLastSync).fired hidle hqueue
  | handlerReturn =>
      obtain ⟨node, hfiring⟩ := Option.ne_none_iff_exists'.mp hcall
      refine ⟨_, free ++ [node], by simp only [epStep, hfiring], hinv.returned hfiring, ?_⟩
      simp [handlerReturned, epFactoryRecyleTimeEvent, isIssued]

/-- A run from any core that is in order. -/
theorem EpInv.run (hinv : EpInv layout core free) {calls : List EpCall}
    (hcalls : Promised (epStep layout) Admissible core calls)
    (hfew : core.history.countP isIssued + calls.countP isCallLater < 268435456) :
    (∃ final free', runMachine (epStep layout) core calls = some final ∧
        EpInv layout final free') ∧
      Promised (epStep layout) (RefusalLaw layout) core calls := by
  induction calls generalizing core free with
  | nil => exact ⟨⟨core, free, rfl, hinv⟩, trivial⟩
  | cons call calls ih =>
      obtain ⟨hcall, hrest⟩ := hcalls
      rw [List.countP_cons] at hfew
      obtain ⟨next, free', hnext, hinv', hcount⟩ := hinv.step hcall (by omega)
      obtain ⟨⟨final, free'', hfinal, hinv''⟩, hrefusals⟩ := ih hinv' (hrest next hnext) (by omega)
      refine ⟨⟨final, free'', ?_, hinv''⟩, .cons ?_ hnext hrefusals⟩
      · rw [runMachine_cons, hnext, Option.bind_some, hfinal]
      · rintro timeNow seconds useconds handler param rfl hrefused
        simp only [isCallLater, if_true] at hfew
        rcases hinv.epCallLater (by omega) timeNow hcall.1 useconds handler param with
          ⟨hnone | rfl, -⟩ | ⟨_, _, _, -, hissued, -⟩
        · exact .inl hnone
        · exact .inr hinv.shared.ring
        · rw [hissued] at hrefused
          dsimp only at hrefused
          omega

end Runs

/-- The core after its initialisation: every node is free. -/
theorem initialised_inv {mem : Mem} (hmem : Slot.Ready mem layout.epTimeEventAlloc
      sizeofAlarmEventNode layout.theEventNodes (2 * concretLimit * sizeofAlarmEventNode))
    (nodes : Nat → EventNode) (timeNow : Timeval) :
    EpInv layout (initialised layout mem nodes timeNow) (Slot.slotsFrom sizeofAlarmEventNode
      (2 * concretLimit) layout.theEventNodes) := by
  obtain ⟨mem', hinit, hring, hready, -⟩ := Slot.initSlotAllocator_spec hmem (by decide) (by decide)
    layout.laid.below layout.laid.top.le
  constructor
  case shared =>
    simp only [initialised, hinit]
    exact ⟨hready, hring, by simp⟩
  case recorded => constructor <;> simp [initialised]
  all_goals simp [initialised, waiting, running, infinity]

end McuProxy.Ckits.EpCore
