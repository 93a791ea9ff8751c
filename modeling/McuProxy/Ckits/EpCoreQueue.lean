/-
# The queue of the event core is a delta queue

The event core works on the nodes of its wait queue by address, as `timeList.c`
does; the delta queue is the sequence of their contents. Each operation of the
core on its queue is the operation of the delta queue on that sequence, because
no address is in the queue twice. A run of the core is then, as far as its queue
goes, a run of the delta queue, and what is known of the deadlines of a delta
queue is known of the calls of the core.
-/

import McuProxy.Ckits.EpCoreRun
import McuProxy.Ckits.TimeListRun

namespace McuProxy.Ckits.EpCore

open McuProxy.Math McuProxy.Memory McuProxy.Time McuProxy.Time.Timeval

/-- The contents of the nodes at some addresses. -/
def contents (nodes : Nat → EventNode) (queue : List Nat) : List AlarmEventNode :=
  queue.map fun node => (nodes node).toAlarmEventNode

/-- The wait queue of the core as a delta queue. -/
def waitQueue (core : EpCore) : TimeListType where
  headRemain := core.headRemain
  nodes := contents core.nodes core.queue
  listToken := core.listToken
  tvLastSync := core.tvLastSync

section Loops

variable {nodes : Nat → EventNode} {queue : List Nat} {node newEntry : Nat}

@[simp]
theorem contents_nil (nodes : Nat → EventNode) : contents nodes [] = [] := rfl

@[simp]
theorem contents_cons (nodes : Nat → EventNode) (node : Nat) (queue : List Nat) :
    contents nodes (node :: queue) = (nodes node).toAlarmEventNode :: contents nodes queue := rfl

/-- Only what the nodes of the queue hold matters. -/
theorem contents_congr {nodes' : Nat → EventNode}
    (hsame : ∀ node ∈ queue, nodes' node = nodes node) :
    contents nodes' queue = contents nodes queue :=
  List.map_congr_left fun node hnode => by rw [hsame node hnode]

theorem retime_self (nodes : Nat → EventNode) (node : Nat) (tvRemain : Timeval) :
    retime nodes node tvRemain node = { nodes node with tvRemain := tvRemain } :=
  Function.update_self _ _ _

theorem retime_of_ne {other : Nat} (hne : other ≠ node) (tvRemain : Timeval) :
    retime nodes node tvRemain other = nodes other :=
  Function.update_of_ne hne _ _

theorem contents_update (hnode : node ∉ queue) (content : EventNode) :
    contents (Function.update nodes node content) queue = contents nodes queue :=
  contents_congr fun _ hother => Function.update_of_ne (ne_of_mem_of_not_mem hother hnode) _ _

theorem contents_retime (hnode : node ∉ queue) (tvRemain : Timeval) :
    contents (retime nodes node tvRemain) queue = contents nodes queue :=
  contents_update hnode _

/-- The loop of `synchronize` writes to nodes of the queue only. -/
theorem synchronizeQueue_of_notMem (hnode : node ∉ queue) (timeSinceLastSync : Timeval) :
    synchronizeQueue timeSinceLastSync queue nodes node = nodes node := by
  induction queue generalizing timeSinceLastSync nodes with
  | nil => rfl
  | cons cur rest ih =>
      obtain ⟨hne, hrest⟩ := List.ne_and_not_mem_of_not_mem_cons hnode
      rw [synchronizeQueue]
      split
      · rw [ih hrest, retime_of_ne hne]
      · rw [retime_of_ne hne]

theorem contents_synchronizeQueue (hnodup : queue.Nodup) (timeSinceLastSync : Timeval) :
    contents (synchronizeQueue timeSinceLastSync queue nodes) queue =
      synchronizeNodes timeSinceLastSync (contents nodes queue) := by
  induction queue generalizing timeSinceLastSync nodes with
  | nil => rfl
  | cons cur rest ih =>
      obtain ⟨hcur, hrest⟩ := List.nodup_cons.mp hnodup
      rw [contents_cons, contents_cons, synchronizeNodes, synchronizeQueue]
      split
      · rw [synchronizeQueue_of_notMem hcur, retime_self, ih hrest, contents_retime hcur]
      · rw [retime_self, contents_retime hcur]

/-- The loop of `addAlarmEventNode` writes to the new node and to nodes of the
queue only. -/
theorem addQueue_of_notMem (hnode : node ∉ newEntry :: queue) :
    (addQueue newEntry queue nodes).2 node = nodes node := by
  obtain ⟨hnew, hqueue⟩ := List.ne_and_not_mem_of_not_mem_cons hnode
  induction queue generalizing nodes with
  | nil => rfl
  | cons cur rest ih =>
      obtain ⟨hne, hrest⟩ := List.ne_and_not_mem_of_not_mem_cons hqueue
      rw [addQueue]
      split
      · have hnode' : node ∉ newEntry :: rest := List.not_mem_cons_of_ne_of_not_mem hnew hrest
        exact (ih hnode' hrest).trans (retime_of_ne hnew _)
      · exact retime_of_ne hne _

/-- The loop of `addAlarmEventNode`, with the token that is written behind it. -/
theorem contents_addQueue (nodes : Nat → EventNode) (hnew : newEntry ∉ queue)
    (hnodup : queue.Nodup) (token : Nat) :
    contents (Function.update (addQueue newEntry queue nodes).2 newEntry
        { (addQueue newEntry queue nodes).2 newEntry with idToken := token })
        (addQueue newEntry queue nodes).1 =
      addNodes { (nodes newEntry).toAlarmEventNode with idToken := token }
        (contents nodes queue) := by
  induction queue generalizing nodes with
  | nil => simp [addQueue, addNodes]
  | cons cur rest ih =>
      obtain ⟨hne, hnew'⟩ := List.ne_and_not_mem_of_not_mem_cons hnew
      obtain ⟨hcur, hrest⟩ := List.nodup_cons.mp hnodup
      rw [addQueue, contents_cons, addNodes]
      split
      · -- the loop goes on behind `cur`, which it leaves as it is
        have hkept : cur ∉ newEntry :: rest := List.not_mem_cons_of_ne_of_not_mem hne.symm hcur
        dsimp only
        rw [contents_cons, Function.update_of_ne hne.symm, ih _ hnew' hrest,
          addQueue_of_notMem hkept, retime_of_ne hne.symm, contents_retime hnew', retime_self]
      · dsimp only
        rw [contents_cons, contents_cons, Function.update_self, Function.update_of_ne hne.symm,
          retime_of_ne hne, retime_self, contents_update hnew', contents_retime hcur]

theorem mem_of_successor {entry next : Nat} (hnext : successor entry queue = some next) :
    next ∈ queue := by
  induction queue with
  | nil => simp [successor] at hnext
  | cons cur rest ih =>
      rw [successor] at hnext
      split at hnext
      · exact List.mem_cons_of_mem _ (List.mem_of_head? hnext)
      · exact List.mem_cons_of_mem _ (ih hnext)

/-- What `delAlarmEventNode` does to the times when `entry` leaves the queue. -/
def handOver (headRemain : Timeval) (nodes : Nat → EventNode) (entry : Nat) (queue : List Nat) :
    Timeval × (Nat → EventNode) :=
  match successor entry queue with
  | none => (carryOver headRemain (nodes entry).tvRemain, nodes)
  | some next =>
      (headRemain, retime nodes next (carryOver (nodes next).tvRemain (nodes entry).tvRemain))

/-- A node that is not in the queue keeps its contents. -/
theorem handOver_of_notMem (hnode : node ∉ queue) (headRemain : Timeval) (entry : Nat) :
    (handOver headRemain nodes entry queue).2 node = nodes node := by
  unfold handOver
  split
  · rfl
  · rename_i next hnext
    exact retime_of_ne (ne_of_mem_of_not_mem (mem_of_successor hnext) hnode).symm _

theorem contents_unlink (hnodup : queue.Nodup) {token entry : Nat}
    (hfind : (queue.find? fun cur => token = (nodes cur).idToken) = some entry)
    (headRemain : Timeval) :
    unlinkNode token headRemain (contents nodes queue) =
      ((handOver headRemain nodes entry queue).1,
        contents (handOver headRemain nodes entry queue).2 (queue.erase entry)) := by
  induction queue with
  | nil => simp at hfind
  | cons cur rest ih =>
      obtain ⟨hcur, hrest⟩ := List.nodup_cons.mp hnodup
      by_cases htoken : token = (nodes cur).idToken
      · -- `cur` is the node, and its time goes to the one behind it
        obtain rfl : cur = entry := by simpa [htoken] using hfind
        cases rest with
        | nil => simp [unlinkNode, htoken, handOver, successor]
        | cons next rest =>
            obtain ⟨hnext, -⟩ := List.nodup_cons.mp hrest
            simp [unlinkNode, htoken, handOver, successor, retime_self, contents_retime hnext]
      · rw [List.find?_cons_of_neg (by simpa using htoken)] at hfind
        have hne : cur ≠ entry := by
          rintro rfl
          exact hcur (List.mem_of_find?_eq_some hfind)
        have hsame : ∀ list, handOver headRemain nodes entry (cur :: list) =
            handOver headRemain nodes entry list := by
          intro list
          simp only [handOver, successor, if_neg hne]
        have hih := ih hrest hfind
        cases rest with
        | nil => simp at hfind
        | cons next rest =>
            rw [contents_cons nodes next] at hih
            rw [hsame, List.erase_cons_tail (by simpa using hne), contents_cons nodes cur,
              contents_cons nodes next, contents_cons _ cur, handOver_of_notMem hcur, unlinkNode,
              if_neg htoken, hih]

end Loops

section Operations

variable {core : EpCore} {timeNow : Timeval}

theorem waitQueue_synchronize (hnodup : core.queue.Nodup) (timeNow : Timeval) :
    (core.synchronize timeNow).waitQueue = Ckits.synchronize core.waitQueue timeNow := by
  simp only [waitQueue, synchronize, Ckits.synchronize, contents_synchronizeQueue hnodup]

theorem waitQueue_addAlarmEventNode (hnodup : core.queue.Nodup) (timeNow : Timeval) {newEntry : Nat}
    (hnew : newEntry ∉ core.queue) :
    (core.addAlarmEventNode timeNow newEntry).2.waitQueue =
      (Ckits.addAlarmEventNode core.waitQueue timeNow
        (core.nodes newEntry).toAlarmEventNode).2 := by
  have hkept : (core.synchronize timeNow).nodes newEntry = core.nodes newEntry :=
    synchronizeQueue_of_notMem hnew _
  have hadded := contents_addQueue (core.synchronize timeNow).nodes hnew hnodup core.listToken
  rw [hkept] at hadded
  simp only [addAlarmEventNode, Ckits.addAlarmEventNode]
  rw [← waitQueue_synchronize hnodup]
  exact congrArg (fun nodes => (⟨core.headRemain, nodes, (core.listToken + 1) &&& 0x0FFFFFFF,
    timeNow⟩ : TimeListType)) hadded

/-- `eventHead.list.next` is the first node or the head, for both. -/
theorem firstRemain_waitQueue (core : EpCore) :
    Ckits.firstRemain core.waitQueue = core.firstRemain := by
  unfold Ckits.firstRemain firstRemain
  cases hqueue : core.queue <;> simp [waitQueue, hqueue]

/-- `queryAlarmEventNode` returns the node at the address the core finds. -/
theorem queryAlarmEventNode_waitQueue (core : EpCore) (token : Nat) :
    Ckits.queryAlarmEventNode core.waitQueue token =
      (core.queryAlarmEventNode token).map fun entry => (core.nodes entry).toAlarmEventNode := by
  simp only [Ckits.queryAlarmEventNode, queryAlarmEventNode, waitQueue, contents, List.find?_map]
  rfl

theorem waitQueue_delAlarmEventNode (hnodup : core.queue.Nodup) (timeNow : Timeval) (token : Nat) :
    (core.delAlarmEventNode timeNow token).2.waitQueue =
      (Ckits.delAlarmEventNode core.waitQueue timeNow token).2 := by
  simp only [delAlarmEventNode, Ckits.delAlarmEventNode]
  rw [← waitQueue_synchronize hnodup, queryAlarmEventNode_waitQueue]
  cases hquery : (core.synchronize timeNow).queryAlarmEventNode token with
  | none => rfl
  | some entry =>
      have hfind : (core.queue.find? fun cur =>
          token = ((core.synchronize timeNow).nodes cur).idToken) = some entry := hquery
      have hunlink := contents_unlink hnodup hfind core.headRemain
      simp only [Option.map_some]
      have hlist : (core.synchronize timeNow).waitQueue.nodes =
          contents (core.synchronize timeNow).nodes core.queue := rfl
      have hhead : (core.synchronize timeNow).waitQueue.headRemain = core.headRemain := rfl
      rw [hlist, hhead, hunlink, handOver]
      have hqueue : (core.synchronize timeNow).queue = core.queue := rfl
      rw [hqueue]
      cases successor entry core.queue <;> rfl

/-- The queue with its clock set, if its first node is not due. -/
def settled (core : EpCore) (timeNow : Timeval) : EpCore :=
  if core.firstRemain.tvSec ≠ 0 ∨ core.firstRemain.tvUsec ≠ 0 then core.synchronize timeNow
  else core

theorem waitQueue_settled (hnodup : core.queue.Nodup) (timeNow : Timeval) :
    (core.settled timeNow).waitQueue = settle core.waitQueue timeNow := by
  rw [settle, firstRemain_waitQueue, ← waitQueue_synchronize hnodup]
  exact apply_ite waitQueue _ _ _

/-- An alarm that is defined is the alarm of the delta queue. -/
theorem waitQueue_handleAlarmEvent (hnodup : core.queue.Nodup) (timeNow : Timeval) {next : EpCore}
    (hstep : core.handleAlarmEvent timeNow = some next) :
    next.waitQueue = (Ckits.handleAlarmEvent core.waitQueue timeNow).2 := by
  simp only [handleAlarmEvent, ← settled.eq_1] at hstep
  simp only [Ckits.handleAlarmEvent, ← settle.eq_1, ← waitQueue_settled hnodup]
  simp only [firstRemain_waitQueue]
  generalize core.settled timeNow = settled at hstep ⊢
  split at hstep
  · rename_i hdue
    rw [if_pos hdue]
    cases hqueue : settled.queue with
    | nil => simp [hqueue] at hstep
    | cons cur rest =>
        have hnodes : settled.waitQueue.nodes =
            (settled.nodes cur).toAlarmEventNode :: contents settled.nodes rest := by
          simp [waitQueue, hqueue]
        simp only [hqueue] at hstep
        simp only [hnodes]
        split at hstep
        · obtain rfl := Option.some.inj hstep
          rfl
        · obtain rfl := Option.some.inj hstep
          rfl
  · rename_i hearly
    rw [if_neg hearly]
    obtain rfl := Option.some.inj hstep
    rfl

end Operations

section Runs

variable {layout : EpLayout} {core next : EpCore} {free : List Nat}

theorem EpInv.queue_nodup (hinv : EpInv layout core free) : core.queue.Nodup :=
  (List.nodup_append.mp (List.nodup_append.mp hinv.shared.nodup).2.1).1

/-- The delta queue goes from one state to another by calls of its own. -/
def Follows (lst lst' : TimeListType) : Prop :=
  ∃ calls : List Call, ∀ agenda clock, ∃ traced,
    runMachine Traced.machine ⟨lst, agenda, clock⟩ calls = some traced ∧ traced.lst = lst'

theorem Follows.refl (lst : TimeListType) : Follows lst lst :=
  ⟨[], fun agenda clock => ⟨⟨lst, agenda, clock⟩, rfl, rfl⟩⟩

theorem Follows.of_call {lst lst' : TimeListType} (call : Call)
    (hstep : ∀ agenda clock, (Traced.step ⟨lst, agenda, clock⟩ call).lst = lst') :
    Follows lst lst' :=
  ⟨[call], fun agenda clock => ⟨_, rfl, hstep agenda clock⟩⟩

theorem Follows.trans {lst lst' lst'' : TimeListType} (hfirst : Follows lst lst')
    (hsecond : Follows lst' lst'') : Follows lst lst'' := by
  obtain ⟨calls, hcalls⟩ := hfirst
  obtain ⟨calls', hcalls'⟩ := hsecond
  refine ⟨calls ++ calls', fun agenda clock => ?_⟩
  obtain ⟨⟨middle, agenda', clock'⟩, hrun, rfl⟩ := hcalls agenda clock
  obtain ⟨traced, hrun', hlst⟩ := hcalls' agenda' clock'
  exact ⟨traced, by rw [runMachine_append, hrun, Option.bind_some, hrun'], hlst⟩

/-- A call that is refused leaves the queue, and one that is scheduled adds its
node to it. -/
theorem follows_epCallLater (hinv : EpInv layout core free) (timeNow : Timeval)
    (seconds useconds : Int) (handler param : Nat) :
    Follows core.waitQueue
      (core.epCallLater layout timeNow seconds useconds handler param).2.waitQueue := by
  by_cases hhandler : handler = 0
  · simp only [epCallLater, hhandler, if_true]
    exact Follows.refl _
  · cases free with
    | nil =>
        have hmalloc := Slot.slotMalloc_nil hinv.shared.ring sizeofAlarmEventNode
        simp only [epCallLater, hhandler, if_false, hmalloc, if_true]
        exact Follows.refl _
    | cons newEntry rest =>
        obtain ⟨mem, hmalloc, hshared⟩ := hinv.shared.slotMalloc layout.laid
        have hnew : newEntry ∉ core.queue := fun hmem =>
          notMem_of_shared hshared (List.mem_append_left _ hmem)
        simp only [epCallLater, hhandler, if_false, hmalloc]
        split
        · exact Follows.refl _
        · refine Follows.of_call (.add timeNow
            ⟨⟨seconds, useconds⟩, layout.epTimeOutHandler, (core.nodes newEntry).idToken⟩)
            fun agenda clock => ?_
          let node : EventNode := { core.nodes newEntry with
            tvRemain := ⟨seconds, useconds⟩
            cbTimeout := layout.epTimeOutHandler
            cbParam := param
            reserved := handler }
          let filled : EpCore := { core with
            mem := mem, nodes := Function.update core.nodes newEntry node }
          -- filling in a node that is not in the queue does not change the queue
          have hqueue : filled.waitQueue = core.waitQueue := by
            simp only [filled, waitQueue, contents_update hnew]
          have hnode : filled.nodes newEntry = node := Function.update_self _ _ _
          have hnodup : filled.queue.Nodup := hinv.queue_nodup
          have hadded := waitQueue_addAlarmEventNode hnodup timeNow hnew
          rw [hqueue, hnode] at hadded
          exact hadded.symm

/-- A cancellation is the deletion of its token. -/
theorem waitQueue_epCancelCall (hnodup : core.queue.Nodup) (timeNow : Timeval) (token : Int) :
    (core.epCancelCall layout timeNow token).2.waitQueue =
      (Ckits.delAlarmEventNode core.waitQueue timeNow (token % 4294967296).toNat).2 := by
  rw [← waitQueue_delAlarmEventNode hnodup, epCancelCall]
  split
  · rename_i heq
    rw [heq]
    rfl
  · rename_i heq
    rw [heq]

/-- A step of the core is, as far as its queue goes, a call of the delta queue or
none. -/
theorem EpInv.follows (hinv : EpInv layout core free) {call : EpCall}
    (hstep : epStep layout core call = some next) :
    Follows core.waitQueue next.waitQueue := by
  have hnodup := hinv.queue_nodup
  cases call with
  | callLater timeNow seconds useconds handler param =>
      obtain rfl := Option.some.inj hstep
      exact follows_epCallLater hinv timeNow seconds useconds handler param
  | cancelCall timeNow token =>
      have hnext : next.waitQueue = (core.epCancelCall layout timeNow token).2.waitQueue := by
        obtain rfl := Option.some.inj hstep
        exact apply_ite waitQueue _ _ _ |>.trans (ite_self _)
      rw [hnext]
      exact Follows.of_call (.del timeNow (token % 4294967296).toNat) fun _ _ =>
        (waitQueue_epCancelCall hnodup timeNow token).symm
  | timeToNext timeNow =>
      obtain rfl := Option.some.inj hstep
      exact Follows.of_call (.next timeNow) fun _ _ => (waitQueue_synchronize hnodup timeNow).symm
  | alarm timeNow =>
      cases hfiring : core.firing with
      | none =>
          simp only [epStep, hfiring] at hstep
          exact Follows.of_call (.alarm timeNow) fun _ _ =>
            (waitQueue_handleAlarmEvent hnodup timeNow hstep).symm
      | some theEvent => simp [epStep, hfiring] at hstep
  | handlerReturn =>
      cases hfiring : core.firing with
      | none => simp [epStep, hfiring] at hstep
      | some theEvent =>
          simp only [epStep, hfiring] at hstep
          obtain rfl := Option.some.inj hstep
          exact Follows.refl _

/-- A run from any core that is in order. -/
theorem EpInv.run_follows (hinv : EpInv layout core free) {calls : List EpCall}
    (hcalls : Promised (epStep layout) Admissible core calls)
    (hfew : core.history.countP isIssued + calls.countP isCallLater < 268435456) :
    ∃ final, runMachine (epStep layout) core calls = some final ∧
      Follows core.waitQueue final.waitQueue := by
  induction calls generalizing core free with
  | nil => exact ⟨core, rfl, Follows.refl _⟩
  | cons call calls ih =>
      obtain ⟨hcall, hrest⟩ := hcalls
      rw [List.countP_cons] at hfew
      obtain ⟨next, free', hnext, hinv', hcount⟩ := hinv.step hcall (by omega)
      obtain ⟨final, hfinal, hfollows⟩ := ih hinv' (hrest next hnext) (by omega)
      refine ⟨final, ?_, (hinv.follows hnext).trans hfollows⟩
      rw [runMachine_cons, hnext, Option.bind_some, hfinal]

end Runs

/-- The wait queue of the core after any run is the delta queue after a run of its
own calls from `initTimeList`. -/
theorem waitQueue_refines_timeList (layout : EpLayout) {mem : Mem}
    (hmem : Slot.Ready mem layout.epTimeEventAlloc sizeofAlarmEventNode layout.theEventNodes
      (2 * concretLimit * sizeofAlarmEventNode))
    (nodes : Nat → EventNode) (timeNow : Timeval) (calls : List EpCall)
    (hcalls : Promised (epStep layout) Admissible (initialised layout mem nodes timeNow) calls)
    (hfew : calls.countP isCallLater < 268435456) :
    ∃ final listCalls traced,
      runMachine (epStep layout) (initialised layout mem nodes timeNow) calls = some final ∧
      runMachine Traced.machine (Traced.init timeNow) listCalls = some traced ∧
      traced.lst = final.waitQueue := by
  have hstart := initialised_inv layout hmem nodes timeNow
  obtain ⟨final, hfinal, listCalls, hfollows⟩ :=
    hstart.run_follows hcalls (by simpa [initialised] using hfew)
  obtain ⟨traced, hrun, hlst⟩ := hfollows Agenda.empty timeNow
  exact ⟨final, listCalls, traced, hfinal, hrun, hlst⟩

end McuProxy.Ckits.EpCore
