/-
# The delta queue represents an agenda

What the delta queue is for is an agenda: the pending events with their absolute
deadlines, in the order of deadlines and, among equal ones, of addition. Adding
and deleting change the agenda by the one event concerned. `Represents` says
that a delta queue stores an agenda, and each function of `timeList.c` is
compared with what it should do to the agenda.

`handleAlarmEvent` is the exception. It unlinks a node that may still have up to
499 microseconds to go and, unlike `delAlarmEventNode`, does not pass them on to
the node behind it.
-/

import McuProxy.Ckits.TimeList
import McuProxy.Math.DeltaList
import McuProxy.Math.Machine

namespace McuProxy.Ckits

open McuProxy.Math McuProxy.Time McuProxy.Time.Timeval

/-! ## The agenda -/

/-- A pending event. Deadlines are counted in microseconds, `added` is the
number of events added before. -/
structure Appointment where
  token : Nat
  deadline : Int
  added : Nat
  deriving DecidableEq, Repr

/-- The order of an agenda. -/
def Appointment.Before (first second : Appointment) : Prop :=
  first.deadline < second.deadline ∨
    first.deadline = second.deadline ∧ first.added < second.added

structure Agenda where
  entries : List Appointment
  listToken : Nat
  added : Nat
  deriving DecidableEq, Repr

namespace Agenda

def empty : Agenda := ⟨[], 1, 0⟩

/-- The appointment that an addition at `now` makes. -/
def fresh (agenda : Agenda) (now delay : Int) : Appointment :=
  ⟨agenda.listToken, now + delay, agenda.added⟩

def add (agenda : Agenda) (now delay : Int) : Agenda where
  entries := insertBefore (fun other => decide (now + delay < other.deadline))
    (agenda.fresh now delay) agenda.entries
  listToken := (agenda.listToken + 1) &&& 0x0FFFFFFF
  added := agenda.added + 1

def del (agenda : Agenda) (token : Nat) : Agenda :=
  { agenda with entries := agenda.entries.eraseP fun entry => token = entry.token }

/-- The first event leaves the agenda. -/
def pop (agenda : Agenda) : Agenda := { agenda with entries := agenda.entries.tail }

end Agenda

/-! ## The list as deltas -/

/-- What the nodes store, in microseconds. -/
def deltas (nodes : List AlarmEventNode) : List (Nat × Int) :=
  nodes.map fun node => (node.idToken, node.tvRemain.micros)

/-- All nodes store normalised time spans. -/
def Delays (nodes : List AlarmEventNode) : Prop := ∀ node ∈ nodes, node.tvRemain.Delay

theorem Delays.tail {node : AlarmEventNode} {nodes : List AlarmEventNode}
    (hdelays : Delays (node :: nodes)) : Delays nodes := fun other hother =>
  hdelays other (List.mem_cons_of_mem _ hother)

theorem Delays.cons {node : AlarmEventNode} {nodes : List AlarmEventNode}
    (hnode : node.tvRemain.Delay) (hnodes : Delays nodes) : Delays (node :: nodes) :=
  List.forall_mem_cons.mpr ⟨hnode, hnodes⟩

theorem zero_delay : zero.Delay := by decide

theorem micros_nonneg {tv : Timeval} (htv : tv.Delay) : 0 ≤ tv.micros := by
  obtain ⟨hsec, husec, _⟩ := htv
  rw [micros]
  omega

theorem deltas_nonneg {nodes : List AlarmEventNode} (hdelays : Delays nodes) :
    ∀ entry ∈ deltas nodes, 0 ≤ entry.2 := by
  intro entry hentry
  obtain ⟨node, hnode, rfl⟩ := List.mem_map.mp hentry
  exact micros_nonneg (hdelays node hnode)

/-- The loop of `synchronize` lets time pass. -/
theorem synchronizeNodes_spec {elapsed : Timeval} (helapsed : elapsed.Delay)
    {nodes : List AlarmEventNode} (hdelays : Delays nodes) :
    Delays (synchronizeNodes elapsed nodes) ∧
      deltas (synchronizeNodes elapsed nodes) = advance elapsed.micros (deltas nodes) := by
  induction nodes generalizing elapsed with
  | nil => exact ⟨hdelays, rfl⟩
  | cons cur rest ih =>
      have hcur : cur.tvRemain.Delay := hdelays cur List.mem_cons_self
      have hcompare : timeOverthan elapsed cur.tvRemain = true ↔
          cur.tvRemain.micros ≤ elapsed.micros := by
        rw [timeOverthan_iff, le_iff_micros_le hcur.2 helapsed.2]
      by_cases hdue : cur.tvRemain.micros ≤ elapsed.micros
      · obtain ⟨hleft, hleftMicros⟩ := timeInterval_spec helapsed.2 hcur.2
        rw [max_eq_right (sub_nonneg.mpr hdue)] at hleftMicros
        obtain ⟨hrest, hdeltas⟩ := ih hleft hdelays.tail
        rw [hleftMicros] at hdeltas
        rw [synchronizeNodes, if_pos (hcompare.mpr hdue)]
        refine ⟨Delays.cons zero_delay hrest, ?_⟩
        show (cur.idToken, zero.micros) :: deltas _ = _
        rw [hdeltas]
        simp only [deltas, List.map_cons, advance, hdue, if_true]
        rfl
      · have hnot : ¬ timeOverthan elapsed cur.tvRemain = true := hcompare.not.mpr hdue
        obtain ⟨hleft, hleftMicros⟩ := timeInterval_spec hcur.2 helapsed.2
        rw [max_eq_right (sub_nonneg.mpr (not_le.mp hdue).le)] at hleftMicros
        rw [synchronizeNodes, if_neg hnot]
        refine ⟨Delays.cons hleft hdelays.tail, ?_⟩
        simp only [deltas, List.map_cons, advance, hdue, if_false, hleftMicros]

theorem synchronizeNodes_length (elapsed : Timeval) (nodes : List AlarmEventNode) :
    (synchronizeNodes elapsed nodes).length = nodes.length := by
  induction nodes generalizing elapsed with
  | nil => rfl
  | cons cur rest ih =>
      rw [synchronizeNodes]
      split <;> simp [ih]

/-- The loop of `addAlarmEventNode` places the new node. -/
theorem addNodes_spec {newEntry : AlarmEventNode} (hnew : newEntry.tvRemain.Delay)
    {nodes : List AlarmEventNode} (hdelays : Delays nodes) :
    Delays (addNodes newEntry nodes) ∧
      deltas (addNodes newEntry nodes) =
        place newEntry.idToken newEntry.tvRemain.micros (deltas nodes) := by
  induction nodes generalizing newEntry with
  | nil => exact ⟨Delays.cons hnew hdelays, rfl⟩
  | cons cur rest ih =>
      have hcur : cur.tvRemain.Delay := hdelays cur List.mem_cons_self
      have hcompare : timeOverthan newEntry.tvRemain cur.tvRemain = true ↔
          cur.tvRemain.micros ≤ newEntry.tvRemain.micros := by
        rw [timeOverthan_iff, le_iff_micros_le hcur.2 hnew.2]
      by_cases hbehind : cur.tvRemain.micros ≤ newEntry.tvRemain.micros
      · obtain ⟨hleft, hleftMicros⟩ := timeInterval_spec hnew.2 hcur.2
        rw [max_eq_right (sub_nonneg.mpr hbehind)] at hleftMicros
        have hrest := @ih { newEntry with
          tvRemain := timeInterval newEntry.tvRemain cur.tvRemain } hleft hdelays.tail
        rw [addNodes, if_pos (hcompare.mpr hbehind)]
        refine ⟨Delays.cons hcur hrest.1, ?_⟩
        show (cur.idToken, cur.tvRemain.micros) :: deltas _ = _
        rw [hrest.2]
        simp only [deltas, List.map_cons, place, hbehind, if_true, hleftMicros]
      · have hnot : ¬ timeOverthan newEntry.tvRemain cur.tvRemain = true := hcompare.not.mpr hbehind
        obtain ⟨hleft, hleftMicros⟩ := timeInterval_spec hcur.2 hnew.2
        rw [max_eq_right (sub_nonneg.mpr (not_le.mp hbehind).le)] at hleftMicros
        rw [addNodes, if_neg hnot]
        refine ⟨Delays.cons hnew (Delays.cons hleft hdelays.tail), ?_⟩
        simp only [deltas, List.map_cons, place, hbehind, if_false, hleftMicros]

theorem carryOver_spec {next entry : Timeval} (hnext : next.Delay) (hentry : entry.Delay) :
    (carryOver next entry).Delay ∧ (carryOver next entry).micros = next.micros + entry.micros := by
  obtain ⟨_, _, _⟩ := hnext
  obtain ⟨_, _, _⟩ := hentry
  unfold carryOver
  dsimp only
  split_ifs <;> simp only [Delay, Normalised, micros, million] at * <;> omega

/-- Unlinking by `delAlarmEventNode` withdraws the node. -/
theorem unlinkNode_spec (token : Nat) (headRemain : Timeval) {nodes : List AlarmEventNode}
    (hdelays : Delays nodes) :
    Delays (unlinkNode token headRemain nodes).2 ∧
      deltas (unlinkNode token headRemain nodes).2 =
        withdraw (fun label => decide (token = label)) (deltas nodes) := by
  induction nodes with
  | nil => exact ⟨hdelays, rfl⟩
  | cons entry rest ih =>
      have hentry : entry.tvRemain.Delay := hdelays entry List.mem_cons_self
      cases rest with
      | nil =>
          by_cases htoken : token = entry.idToken
          · simp [unlinkNode, deltas, withdraw, htoken, Delays]
          · simp [unlinkNode, deltas, withdraw, htoken, Delays, hentry]
      | cons next rest =>
          have hnext : next.tvRemain.Delay := hdelays.tail next List.mem_cons_self
          by_cases htoken : token = entry.idToken
          · obtain ⟨hsum, hsumMicros⟩ := carryOver_spec hnext hentry
            simp only [unlinkNode, htoken, if_true]
            refine ⟨Delays.cons hsum hdelays.tail.tail, ?_⟩
            simp [deltas, withdraw, hsumMicros]
          · obtain ⟨hrest, hdeltas⟩ := ih hdelays.tail
            simp only [unlinkNode, htoken, if_false]
            refine ⟨Delays.cons hentry hrest, ?_⟩
            show (entry.idToken, entry.tvRemain.micros) :: deltas _ = _
            rw [hdeltas]
            simp [deltas, withdraw, htoken]

/-- A token that no node carries unlinks nothing. -/
theorem unlinkNode_of_none {token : Nat} (headRemain : Timeval) {nodes : List AlarmEventNode}
    (hnone : ∀ node ∈ nodes, token ≠ node.idToken) :
    unlinkNode token headRemain nodes = (headRemain, nodes) := by
  induction nodes with
  | nil => rfl
  | cons entry rest ih =>
      have hentry : token ≠ entry.idToken := hnone entry List.mem_cons_self
      have hrest := ih fun node hnode => hnone node (List.mem_cons_of_mem _ hnode)
      cases rest with
      | nil => rw [unlinkNode, if_neg hentry]
      | cons next rest =>
          rw [unlinkNode, if_neg hentry, hrest]

/-- What `delAlarmEventNode` leaves, whether it found its token or not. -/
theorem delAlarmEventNode_list (lst : TimeListType) (timeNow : Timeval) (token : Nat) :
    (delAlarmEventNode lst timeNow token).2 =
      { synchronize lst timeNow with
        headRemain := (unlinkNode token (synchronize lst timeNow).headRemain
          (synchronize lst timeNow).nodes).1
        nodes := (unlinkNode token (synchronize lst timeNow).headRemain
          (synchronize lst timeNow).nodes).2 } := by
  rw [delAlarmEventNode]
  cases hquery : queryAlarmEventNode (synchronize lst timeNow) token with
  | none =>
      have hnone : ∀ node ∈ (synchronize lst timeNow).nodes, token ≠ node.idToken := by
        simpa [queryAlarmEventNode] using hquery
      rw [unlinkNode_of_none _ hnone]
  | some entry => rfl

/-! ## The representation -/

/-- A delta queue stores an agenda: counted from the last synchronisation, each
node is as far away as its deadline, and past deadlines are at zero. -/
structure Represents (lst : TimeListType) (agenda : Agenda) : Prop where
  sync_normalised : lst.tvLastSync.Normalised
  delays : Delays lst.nodes
  timeline_eq : timeline 0 (deltas lst.nodes) = agenda.entries.map fun entry =>
    (entry.token, max 0 (entry.deadline - lst.tvLastSync.micros))
  sorted : agenda.entries.Pairwise Appointment.Before
  added_lt : ∀ entry ∈ agenda.entries, entry.added < agenda.added
  token_eq : lst.listToken = agenda.listToken

theorem initTimeList_represents {timeNow : Timeval} (hnow : timeNow.Normalised) :
    Represents (initTimeList timeNow) Agenda.empty :=
  ⟨hnow, by simp [initTimeList, Delays], rfl, List.Pairwise.nil, by simp [Agenda.empty], rfl⟩

/-- Synchronising moves the origin and nothing else. -/
theorem Represents.sync {lst : TimeListType} {agenda : Agenda} (hrep : Represents lst agenda)
    {timeNow : Timeval} (hnow : timeNow.Normalised) (hclock : lst.tvLastSync ≤ timeNow) :
    Represents (synchronize lst timeNow) agenda := by
  have hle : lst.tvLastSync.micros ≤ timeNow.micros :=
    (le_iff_micros_le hrep.sync_normalised hnow).mp hclock
  obtain ⟨helapsed, hmicros⟩ := timeInterval_spec hnow hrep.sync_normalised
  rw [max_eq_right (sub_nonneg.mpr hle)] at hmicros
  obtain ⟨hdelays, hdeltas⟩ := synchronizeNodes_spec helapsed hrep.delays
  refine ⟨hnow, hdelays, ?_, hrep.sorted, hrep.added_lt, hrep.token_eq⟩
  show timeline 0 (deltas (synchronizeNodes _ lst.nodes)) = _
  rw [hdeltas, timeline_advance (micros_nonneg helapsed) (deltas_nonneg hrep.delays),
    hrep.timeline_eq, List.map_map, hmicros]
  apply List.map_congr_left
  intro entry _
  simp only [Function.comp_apply, synchronize, Prod.mk.injEq, true_and]
  omega

/-- The order of the agenda survives an addition. -/
theorem Agenda.add_sorted {agenda : Agenda} (hsorted : agenda.entries.Pairwise Appointment.Before)
    (hadded : ∀ entry ∈ agenda.entries, entry.added < agenda.added) (now delay : Int) :
    (agenda.add now delay).entries.Pairwise Appointment.Before := by
  apply insertBefore_pairwise hsorted
  · intro other _ hbehind
    have hlt : now + delay < other.deadline := by simpa using hbehind
    exact Or.inl hlt
  · intro other hother hbefore
    have hle : other.deadline ≤ now + delay := by simpa using hbefore
    rcases hle.lt_or_eq with hlt | heq
    · exact Or.inl hlt
    · exact Or.inr ⟨heq, hadded other hother⟩
  · intro first _ second _ hearlier hbehind
    have hlt : now + delay < first.deadline := by simpa using hbehind
    rcases hearlier with hless | ⟨heq, _⟩
    · simpa using hlt.trans hless
    · simpa [heq] using heq ▸ hlt

/-- `addAlarmEventNode` adds one appointment to the agenda. -/
theorem Represents.add {lst : TimeListType} {agenda : Agenda} (hrep : Represents lst agenda)
    {timeNow : Timeval} (hnow : timeNow.Normalised) (hclock : lst.tvLastSync ≤ timeNow)
    {newEntry : AlarmEventNode} (hnew : newEntry.tvRemain.Delay) :
    Represents (addAlarmEventNode lst timeNow newEntry).2
      (agenda.add timeNow.micros newEntry.tvRemain.micros) := by
  have hsync := hrep.sync hnow hclock
  obtain ⟨hdelays, hdeltas⟩ := @addNodes_spec
    { newEntry with idToken := lst.listToken } hnew _ hsync.delays
  refine ⟨hnow, hdelays, ?_, Agenda.add_sorted hrep.sorted hrep.added_lt _ _, ?_, ?_⟩
  · have hdelay : 0 ≤ newEntry.tvRemain.micros := micros_nonneg hnew
    show timeline 0 (deltas (addNodes { newEntry with idToken := lst.listToken }
      (synchronize lst timeNow).nodes)) =
        (agenda.add timeNow.micros newEntry.tvRemain.micros).entries.map _
    rw [hdeltas, timeline_place, hsync.timeline_eq, zero_add, Agenda.add]
    rw [map_insertBefore_comm fun entry : Nat × Int =>
      decide (newEntry.tvRemain.micros < entry.2)]
    · congr 1
      simp only [Agenda.fresh, hrep.token_eq, Prod.mk.injEq, true_and]
      show _ = max 0 (timeNow.micros + newEntry.tvRemain.micros - timeNow.micros)
      omega
    · intro entry _
      show decide _ = decide (_ < max 0 (entry.deadline - timeNow.micros))
      rw [decide_eq_decide]
      omega
  · intro entry hentry
    rcases mem_insertBefore.mp hentry with rfl | hold
    · exact Nat.lt_succ_self _
    · exact Nat.lt_succ_of_lt (hrep.added_lt entry hold)
  · show (lst.listToken + 1) &&& 0x0FFFFFFF = (agenda.listToken + 1) &&& 0x0FFFFFFF
    rw [hrep.token_eq]

/-- `delAlarmEventNode` takes the first appointment with the token away. -/
theorem Represents.del {lst : TimeListType} {agenda : Agenda} (hrep : Represents lst agenda)
    {timeNow : Timeval} (hnow : timeNow.Normalised) (hclock : lst.tvLastSync ≤ timeNow)
    (token : Nat) :
    Represents (delAlarmEventNode lst timeNow token).2 (agenda.del token) := by
  have hsync := hrep.sync hnow hclock
  have hsub := List.eraseP_sublist (p := fun entry : Appointment => decide (token = entry.token))
    (l := agenda.entries)
  have hsorted : (agenda.del token).entries.Pairwise Appointment.Before :=
    hrep.sorted.sublist hsub
  have hadded : ∀ entry ∈ (agenda.del token).entries, entry.added < agenda.added :=
    fun entry hentry => hrep.added_lt entry (hsub.subset hentry)
  have herase : (agenda.del token).entries.map (fun entry =>
      (entry.token, max 0 (entry.deadline - timeNow.micros))) =
      (timeline 0 (deltas (synchronize lst timeNow).nodes)).eraseP
        fun entry => decide (token = entry.1) := by
    rw [hsync.timeline_eq, List.eraseP_map]
    rfl
  obtain ⟨hdelays, hdeltas⟩ := unlinkNode_spec token (synchronize lst timeNow).headRemain
    hsync.delays
  rw [delAlarmEventNode_list]
  refine ⟨hnow, hdelays, ?_, hsorted, hadded, hrep.token_eq⟩
  show timeline 0 (deltas (unlinkNode token _ _).2) = (agenda.del token).entries.map fun entry =>
    (entry.token, max 0 (entry.deadline - timeNow.micros))
  rw [hdeltas, timeline_withdraw, herase]

/-! ## Runs -/

/-- A call, with the clock reading during the call. -/
inductive Call
  | add (timeNow : Timeval) (newEntry : AlarmEventNode)
  | del (timeNow : Timeval) (token : Nat)
  | next (timeNow : Timeval)
  | dump (timeNow : Timeval)
  | alarm (timeNow : Timeval)

/-- A queue, the agenda it should store, and the latest clock reading. -/
structure Traced where
  lst : TimeListType
  agenda : Agenda
  clock : Timeval

namespace Traced

def init (timeNow : Timeval) : Traced := ⟨initTimeList timeNow, Agenda.empty, timeNow⟩

/-- One call. The agenda is kept on its own; only an alarm that fires is taken
from the queue. -/
def step (traced : Traced) : Call → Traced
  | .add timeNow newEntry =>
      ⟨(addAlarmEventNode traced.lst timeNow newEntry).2,
        traced.agenda.add timeNow.micros newEntry.tvRemain.micros, timeNow⟩
  | .del timeNow token =>
      ⟨(delAlarmEventNode traced.lst timeNow token).2, traced.agenda.del token, timeNow⟩
  | .next timeNow => ⟨(timeToNextAlarmEvent traced.lst timeNow).2, traced.agenda, timeNow⟩
  | .dump timeNow => ⟨(dumpTimeList traced.lst timeNow).2, traced.agenda, timeNow⟩
  | .alarm timeNow =>
      ⟨(handleAlarmEvent traced.lst timeNow).2,
        if (handleAlarmEvent traced.lst timeNow).1.isSome then traced.agenda.pop
        else traced.agenda, timeNow⟩

/-- The step as a machine. -/
def machine (traced : Traced) (call : Call) : Option Traced := some (traced.step call)

/-- A clock that does not go back, and normalised readings and delays. -/
def Admissible (traced : Traced) (call : Call) : Prop :=
  match call with
  | .add timeNow newEntry =>
      timeNow.Normalised ∧ traced.clock ≤ timeNow ∧ newEntry.tvRemain.Delay
  | .del timeNow _ | .next timeNow | .dump timeNow | .alarm timeNow =>
      timeNow.Normalised ∧ traced.clock ≤ timeNow

/-- The queue stores the deadlines of the agenda: the sum of `tvRemain` up to a
node is the time from the last synchronisation to its deadline. -/
def DeadlinesKept (traced : Traced) : Prop :=
  traced.lst.nodes.map AlarmEventNode.idToken = traced.agenda.entries.map Appointment.token ∧
    ∀ k entry, traced.agenda.entries[k]? = some entry →
      ((traced.lst.nodes.take (k + 1)).map fun node => node.tvRemain.micros).sum =
        max 0 (entry.deadline - traced.lst.tvLastSync.micros)

/-- What every state before the first drift satisfies. -/
structure Inv (traced : Traced) : Prop where
  represents : Represents traced.lst traced.agenda
  sync_le : traced.lst.tvLastSync ≤ traced.clock

theorem init_inv {timeNow : Timeval} (hnow : timeNow.Normalised) : (init timeNow).Inv :=
  ⟨initTimeList_represents hnow, le_rfl⟩

end Traced

/-- The representation in terms of sums of `tvRemain`. -/
theorem Represents.deadlinesKept {traced : Traced}
    (hrep : Represents traced.lst traced.agenda) : traced.DeadlinesKept := by
  have hget : ∀ k : Nat, (timeline 0 (deltas traced.lst.nodes))[k]? =
      (traced.agenda.entries.map fun entry =>
        (entry.token, max 0 (entry.deadline - traced.lst.tvLastSync.micros)))[k]? := by
    intro k
    rw [hrep.timeline_eq]
  constructor
  · apply List.ext_getElem?
    intro k
    have hk := congrArg (Option.map Prod.fst) (hget k)
    rw [timeline_getElem?] at hk
    simpa [deltas, Function.comp_def] using hk
  · intro k entry hentry
    have hk := congrArg (Option.map Prod.snd) (hget k)
    rw [timeline_getElem?, List.getElem?_map, hentry] at hk
    obtain ⟨sum, hsum, heq⟩ := Option.map_eq_some_iff.mp hk
    obtain ⟨node, _, rfl⟩ := Option.map_eq_some_iff.mp hsum
    simpa [deltas, Function.comp_def] using heq

/-! ## Alarms -/

/-- The list on which `handleAlarmEvent` decides: synchronised, unless the first
event is known to be due. -/
def settle (lst : TimeListType) (timeNow : Timeval) : TimeListType :=
  if (firstRemain lst).tvSec ≠ 0 ∨ (firstRemain lst).tvUsec ≠ 0 then
    synchronize lst timeNow
  else lst

theorem settle_represents {lst : TimeListType} {agenda : Agenda} (hrep : Represents lst agenda)
    {timeNow : Timeval} (hnow : timeNow.Normalised) (hclock : lst.tvLastSync ≤ timeNow) :
    Represents (settle lst timeNow) agenda ∧ (settle lst timeNow).tvLastSync ≤ timeNow := by
  unfold settle
  split
  · exact ⟨hrep.sync hnow hclock, le_rfl⟩
  · exact ⟨hrep, hclock⟩

theorem handleAlarmEvent_nil {lst : TimeListType} {timeNow : Timeval}
    (hnodes : (settle lst timeNow).nodes = []) :
    handleAlarmEvent lst timeNow = (none, settle lst timeNow) := by
  simp only [handleAlarmEvent, ← settle.eq_1, hnodes, ite_self]

/-- With an event at the front: it fires when less than 500 microseconds are left
of it, and whatever is left of it is gone. -/
theorem handleAlarmEvent_cons {lst : TimeListType} {timeNow : Timeval} {cur : AlarmEventNode}
    {rest : List AlarmEventNode} (hnodes : (settle lst timeNow).nodes = cur :: rest)
    (hcur : cur.tvRemain.Delay) :
    handleAlarmEvent lst timeNow =
      if cur.tvRemain.micros < 500 then (some cur, { settle lst timeNow with nodes := rest })
      else (none, settle lst timeNow) := by
  have hfirst : firstRemain (settle lst timeNow) = cur.tvRemain := by
    rw [firstRemain, hnodes]
  have htest : (cur.tvRemain.tvSec = 0 ∧ cur.tvRemain.tvUsec < 1000 / 2) ↔
      cur.tvRemain.micros < 500 := by
    obtain ⟨_, _, _⟩ := hcur
    rw [micros]
    omega
  simp only [handleAlarmEvent, ← settle.eq_1, hfirst, hnodes]
  exact if_congr htest rfl rfl

/-- The first delta of the list on which the alarm decides. -/
theorem settle_cons {lst : TimeListType} {agenda : Agenda} (hrep : Represents lst agenda)
    {timeNow : Timeval} (hnow : timeNow.Normalised) (hclock : lst.tvLastSync ≤ timeNow)
    {first : AlarmEventNode} {rest : List AlarmEventNode} (hnodes : lst.nodes = first :: rest) :
    ∃ cur rest', (settle lst timeNow).nodes = cur :: rest' ∧ rest'.length = rest.length ∧
      cur.tvRemain.micros =
        max 0 (first.tvRemain.micros - (timeNow.micros - lst.tvLastSync.micros)) := by
  have hle : lst.tvLastSync.micros ≤ timeNow.micros :=
    (le_iff_micros_le hrep.sync_normalised hnow).mp hclock
  have hfirst : first.tvRemain.Delay := hrep.delays first (hnodes ▸ List.mem_cons_self)
  have hremain : firstRemain lst = first.tvRemain := by
    rw [firstRemain, hnodes]
  unfold settle
  rw [hremain]
  split
  · obtain ⟨helapsed, hmicros⟩ := timeInterval_spec hnow hrep.sync_normalised
    rw [max_eq_right (sub_nonneg.mpr hle)] at hmicros
    have hcompare : timeOverthan (timeInterval timeNow lst.tvLastSync) first.tvRemain = true ↔
        first.tvRemain.micros ≤ timeNow.micros - lst.tvLastSync.micros := by
      rw [timeOverthan_iff, le_iff_micros_le hfirst.2 helapsed.2, hmicros]
    rw [synchronize, hnodes, synchronizeNodes]
    split
    · rename_i hdue
      refine ⟨_, _, rfl, synchronizeNodes_length _ _, ?_⟩
      rw [max_eq_left (sub_nonpos.mpr (hcompare.mp hdue))]
      rfl
    · rename_i hlater
      refine ⟨_, _, rfl, rfl, ?_⟩
      rw [(timeInterval_spec hfirst.2 helapsed.2).2, hmicros]
  · rename_i hzero
    refine ⟨first, rest, hnodes, rfl, ?_⟩
    have hmicros : first.tvRemain.micros = 0 := by
      simp only [not_or, not_not] at hzero
      rw [micros, hzero.1, hzero.2]
      rfl
    rw [hmicros]
    omega

/-- The first node and the first entry belong together. -/
theorem Represents.cons_entries {lst : TimeListType} {agenda : Agenda}
    (hrep : Represents lst agenda)
    {cur : AlarmEventNode} {rest : List AlarmEventNode} (hnodes : lst.nodes = cur :: rest) :
    ∃ entry entries, agenda.entries = entry :: entries ∧
      cur.tvRemain.micros = max 0 (entry.deadline - lst.tvLastSync.micros) ∧
      timeline cur.tvRemain.micros (deltas rest) = entries.map fun entry =>
        (entry.token, max 0 (entry.deadline - lst.tvLastSync.micros)) := by
  have htimeline := hrep.timeline_eq
  rw [hnodes] at htimeline
  cases hentries : agenda.entries with
  | nil => simp [hentries, deltas, timeline] at htimeline
  | cons entry entries =>
      simp only [hentries, deltas, List.map_cons, timeline, zero_add, List.cons.injEq,
        Prod.mk.injEq] at htimeline
      exact ⟨entry, entries, rfl, htimeline.1.2, htimeline.2⟩

/-- Unlinking the first node without passing its time on is right when it has no
time left, or no successor. -/
theorem Represents.pop {lst : TimeListType} {agenda : Agenda} (hrep : Represents lst agenda)
    {cur : AlarmEventNode} {rest : List AlarmEventNode} (hnodes : lst.nodes = cur :: rest)
    (hclear : cur.tvRemain.micros = 0 ∨ rest = []) :
    Represents { lst with nodes := rest } agenda.pop := by
  obtain ⟨entry, entries, hentries, _, htimeline⟩ := hrep.cons_entries hnodes
  have hpop : agenda.pop.entries = entries := by
    rw [Agenda.pop, hentries, List.tail_cons]
  have hsub : agenda.pop.entries.Sublist agenda.entries := List.tail_sublist _
  refine ⟨hrep.sync_normalised, fun node hnode => hrep.delays node ?_, ?_,
    hrep.sorted.sublist hsub, fun other hother => hrep.added_lt other (hsub.subset hother),
    hrep.token_eq⟩
  · rw [hnodes]
    exact List.mem_cons_of_mem _ hnode
  · rw [hpop]
    rcases hclear with hzero | rfl
    · rwa [hzero] at htimeline
    · exact htimeline

/-- With time left on the first node and an event behind it, unlinking the first
node moves the others. -/
theorem Represents.not_kept_of_residual {lst : TimeListType} {agenda : Agenda}
    (hrep : Represents lst agenda) {cur : AlarmEventNode} {rest : List AlarmEventNode}
    (hnodes : lst.nodes = cur :: rest) (hpos : 0 < cur.tvRemain.micros) (hrest : rest ≠ [])
    (clock : Timeval) :
    ¬ Traced.DeadlinesKept ⟨{ lst with nodes := rest }, agenda.pop, clock⟩ := by
  obtain ⟨entry, entries, hentries, _, htimeline⟩ := hrep.cons_entries hnodes
  obtain ⟨next, rest, rfl⟩ := List.exists_cons_of_ne_nil hrest
  cases entries with
  | nil => simp [deltas, timeline] at htimeline
  | cons second entries =>
      simp only [deltas, List.map_cons, timeline, List.cons.injEq, Prod.mk.injEq] at htimeline
      rintro ⟨_, hsums⟩
      have hsecond := hsums 0 second (by simp [Agenda.pop, hentries])
      simp at hsecond
      omega

/-! ## No drift -/

namespace Traced

/-- An alarm fires no event more than 500 microseconds before its deadline. -/
def OnTime (traced : Traced) : Call → Prop
  | .alarm timeNow =>
      (handleAlarmEvent traced.lst timeNow).1.isSome = true →
        ∀ entry, traced.agenda.entries.head? = some entry →
          entry.deadline ≤ timeNow.micros + 500
  | _ => True

/-- A call behaves: it fires nothing early, and the queue stores the deadlines of
the events that are pending after it. -/
def Behaves (traced : Traced) (call : Call) : Prop :=
  traced.OnTime call ∧ (traced.step call).DeadlinesKept

/-- The condition on a call in the state before it: an alarm that finds two or
more events pending finds the first one due, or at least 500 microseconds
away. -/
def ResidualClear (traced : Traced) : Call → Prop
  | .alarm timeNow =>
      ∀ first second rest, traced.lst.nodes = first :: second :: rest →
        first.tvRemain.micros ≤ timeNow.micros - traced.lst.tvLastSync.micros ∨
          timeNow.micros - traced.lst.tvLastSync.micros + 500 ≤ first.tvRemain.micros
  | _ => True

/-- Every call but an alarm keeps the representation. -/
theorem Inv.step_call {traced : Traced} (hinv : traced.Inv) {call : Call}
    (hcall : traced.Admissible call) (hnoAlarm : ∀ timeNow, call ≠ .alarm timeNow) :
    (traced.step call).Inv := by
  obtain ⟨hrep, hsync⟩ := hinv
  cases call with
  | add timeNow newEntry =>
      obtain ⟨hnow, hclock, hnew⟩ := hcall
      exact ⟨hrep.add hnow (hsync.trans hclock) hnew, le_rfl⟩
  | del timeNow token =>
      obtain ⟨hnow, hclock⟩ := hcall
      refine ⟨hrep.del hnow (hsync.trans hclock) token, ?_⟩
      show (delAlarmEventNode traced.lst timeNow token).2.tvLastSync ≤ timeNow
      rw [delAlarmEventNode_list]
      exact le_rfl
  | next timeNow =>
      obtain ⟨hnow, hclock⟩ := hcall
      exact ⟨hrep.sync hnow (hsync.trans hclock), le_rfl⟩
  | dump timeNow =>
      obtain ⟨hnow, hclock⟩ := hcall
      exact ⟨hrep.sync hnow (hsync.trans hclock), le_rfl⟩
  | alarm timeNow => exact absurd rfl (hnoAlarm timeNow)

/-- The calls that add, delete and look: all but alarms. -/
def Quiet (traced : Traced) (call : Call) : Prop :=
  traced.Admissible call ∧ ∀ timeNow, call ≠ .alarm timeNow

/-- Every run of adding, deleting and looking stores its agenda: each event is in
the list, in the order of deadlines and additions, the sum of the normalised
`tvRemain` up to it is the time to its deadline, and a further addition or
deletion changes no other entry of the agenda. -/
theorem delta_queue_refinement (start : Timeval) (hstart : start.Normalised) (calls : List Call)
    (hcalls : Promised machine Quiet (init start) calls) :
    ∃ traced, runMachine machine (init start) calls = some traced ∧
      traced.DeadlinesKept ∧ Delays traced.lst.nodes ∧
      traced.agenda.entries.Pairwise Appointment.Before ∧
      (∀ timeNow newEntry, (traced.step (.add timeNow newEntry)).agenda.entries.Perm
        (⟨traced.lst.listToken, timeNow.micros + newEntry.tvRemain.micros, traced.agenda.added⟩ ::
          traced.agenda.entries)) ∧
      ∀ timeNow token, (traced.step (.del timeNow token)).agenda.entries =
        traced.agenda.entries.eraseP fun entry => token = entry.token := by
  obtain ⟨traced, hrun, hinv⟩ := runMachine_invariant Inv
    (fun traced call hinv hcall => ⟨traced.step call, rfl, hinv.step_call hcall.1 hcall.2⟩)
    (init_inv hstart) hcalls
  obtain ⟨hrep, _⟩ := hinv
  refine ⟨traced, hrun, hrep.deadlinesKept, hrep.delays, hrep.sorted, ?_, fun _ _ => rfl⟩
  intro timeNow newEntry
  rw [hrep.token_eq]
  exact insertBefore_perm _ _ _

/-- Two additions out of order, a deletion and a look, as the clock moves. -/
theorem delta_queue_refinement_sample :
    Promised machine Quiet (init ⟨0, 0⟩)
        [.add ⟨0, 0⟩ ⟨⟨5, 0⟩, 7, 0⟩, .add ⟨1, 0⟩ ⟨⟨2, 500000⟩, 7, 0⟩, .del ⟨2, 0⟩ 2] ∧
      ∃ traced, runMachine machine (init ⟨0, 0⟩)
        [.add ⟨0, 0⟩ ⟨⟨5, 0⟩, 7, 0⟩, .add ⟨1, 0⟩ ⟨⟨2, 500000⟩, 7, 0⟩, .del ⟨2, 0⟩ 2] =
          some traced ∧ traced.DeadlinesKept := by
  have hcalls : Promised machine Quiet (init ⟨0, 0⟩)
      [.add ⟨0, 0⟩ ⟨⟨5, 0⟩, 7, 0⟩, .add ⟨1, 0⟩ ⟨⟨2, 500000⟩, 7, 0⟩, .del ⟨2, 0⟩ 2] := by
    refine .cons ⟨⟨by decide, by decide, by decide⟩, by simp⟩ rfl ?_
    refine .cons ⟨⟨by decide, by decide, by decide⟩, by simp⟩ rfl ?_
    exact .cons ⟨⟨by decide, by decide⟩, by simp⟩ rfl trivial
  obtain ⟨traced, hrun, hkept, _⟩ :=
    delta_queue_refinement ⟨0, 0⟩ (by decide) _ hcalls
  exact ⟨hcalls, traced, hrun, hkept⟩

/-- An alarm that fires nothing. -/
theorem quiet_alarm {traced : Traced} {timeNow : Timeval}
    (hsettled : Represents (settle traced.lst timeNow) traced.agenda)
    (hle : (settle traced.lst timeNow).tvLastSync ≤ timeNow)
    (hhandle : handleAlarmEvent traced.lst timeNow = (none, settle traced.lst timeNow)) :
    traced.OnTime (.alarm timeNow) ∧ (traced.step (.alarm timeNow)).Inv := by
  constructor
  · simp [OnTime, hhandle]
  · simp only [step, hhandle]
    exact ⟨hsettled, hle⟩

/-- An alarm that fires the first event is on time, and drops the event from the
queue and from the agenda. -/
theorem firing_alarm {traced : Traced} {timeNow : Timeval} (hnow : timeNow.Normalised)
    (hsettled : Represents (settle traced.lst timeNow) traced.agenda)
    (hle : (settle traced.lst timeNow).tvLastSync ≤ timeNow) {cur : AlarmEventNode}
    {rest : List AlarmEventNode} (hcons : (settle traced.lst timeNow).nodes = cur :: rest)
    (hfires : cur.tvRemain.micros < 500)
    (hhandle : handleAlarmEvent traced.lst timeNow =
      (some cur, { settle traced.lst timeNow with nodes := rest })) :
    traced.OnTime (.alarm timeNow) ∧
      traced.step (.alarm timeNow) =
        ⟨{ settle traced.lst timeNow with nodes := rest }, traced.agenda.pop, timeNow⟩ := by
  obtain ⟨entry, entries, hentries, hdeadline, _⟩ := hsettled.cons_entries hcons
  have hmicros : (settle traced.lst timeNow).tvLastSync.micros ≤ timeNow.micros :=
    (le_iff_micros_le hsettled.sync_normalised hnow).mp hle
  constructor
  · intro _ other hother
    obtain rfl : entry = other := by simpa [hentries] using hother
    omega
  · simp [step, hhandle]

/-- An alarm either meets the condition and behaves, or does neither. -/
theorem alarm_cases {traced : Traced} (hinv : traced.Inv) {timeNow : Timeval}
    (hcall : traced.Admissible (.alarm timeNow)) :
    (traced.ResidualClear (.alarm timeNow) ∧ traced.OnTime (.alarm timeNow) ∧
        (traced.step (.alarm timeNow)).Inv) ∨
      (¬ traced.ResidualClear (.alarm timeNow) ∧
        ¬ (traced.step (.alarm timeNow)).DeadlinesKept) := by
  obtain ⟨hrep, hsync⟩ := hinv
  obtain ⟨hnow, hclock⟩ := hcall
  have hle : traced.lst.tvLastSync ≤ timeNow := hsync.trans hclock
  obtain ⟨hsettled, hsettledLe⟩ := settle_represents hrep hnow hle
  cases hnodes : traced.lst.nodes with
  | nil =>
      have hnone : (settle traced.lst timeNow).nodes = [] := by
        unfold settle
        split
        · rw [synchronize, hnodes, synchronizeNodes]
        · exact hnodes
      refine Or.inl ⟨?_, quiet_alarm hsettled hsettledLe (handleAlarmEvent_nil hnone)⟩
      intro first second rest hcons
      exact absurd (hnodes.symm.trans hcons) (by simp)
  | cons first rest =>
      obtain ⟨cur, rest', hcons, hlength, hresidual⟩ := settle_cons hrep hnow hle hnodes
      have hcurDelay : cur.tvRemain.Delay := hsettled.delays cur (hcons ▸ List.mem_cons_self)
      have hhandle := handleAlarmEvent_cons hcons hcurDelay
      by_cases hfires : cur.tvRemain.micros < 500
      · rw [if_pos hfires] at hhandle
        obtain ⟨honTime, hstep⟩ :=
          firing_alarm hnow hsettled hsettledLe hcons hfires hhandle
        rw [hstep]
        by_cases hclear : cur.tvRemain.micros = 0 ∨ rest' = []
        · left
          refine ⟨?_, honTime, hsettled.pop hcons hclear, hsettledLe⟩
          intro first' second rest'' heq
          obtain ⟨rfl, rfl⟩ := List.cons.inj (hnodes.symm.trans heq)
          rcases hclear with hzero | rfl
          · left
            show first.tvRemain.micros ≤ timeNow.micros - traced.lst.tvLastSync.micros
            omega
          · simp at hlength
        · right
          obtain ⟨hpos, hrest⟩ := not_or.mp hclear
          have hpositive : 0 < cur.tvRemain.micros :=
            lt_of_le_of_ne (micros_nonneg hcurDelay) (Ne.symm hpos)
          refine ⟨?_, hsettled.not_kept_of_residual hcons hpositive hrest timeNow⟩
          intro hcondition
          cases rest with
          | nil => exact hrest (List.length_eq_zero_iff.mp hlength)
          | cons second rest =>
              have hgap := hcondition first second rest hnodes
              omega
      · rw [if_neg hfires] at hhandle
        refine Or.inl ⟨?_, quiet_alarm hsettled hsettledLe hhandle⟩
        intro first' second rest'' heq
        obtain ⟨rfl, _⟩ := List.cons.inj (hnodes.symm.trans heq)
        right
        show timeNow.micros - traced.lst.tvLastSync.micros + 500 ≤ first.tvRemain.micros
        omega

/-- A call behaves exactly when it meets the condition, and then the
representation survives it. -/
theorem behaves_iff {traced : Traced} (hinv : traced.Inv) {call : Call}
    (hcall : traced.Admissible call) : traced.Behaves call ↔ traced.ResidualClear call := by
  cases call with
  | alarm timeNow =>
      rcases alarm_cases hinv hcall with ⟨hclear, honTime, hnext⟩ | ⟨hnotClear, hnotKept⟩
      · exact ⟨fun _ => hclear, fun _ => ⟨honTime, hnext.represents.deadlinesKept⟩⟩
      · exact ⟨fun hbehaves => absurd hbehaves.2 hnotKept, fun hclear => absurd hclear hnotClear⟩
  | add timeNow newEntry | del timeNow token | next timeNow | dump timeNow =>
      have hnext := hinv.step_call hcall (by simp)
      exact ⟨fun _ => trivial, fun _ => ⟨trivial, hnext.represents.deadlinesKept⟩⟩

theorem Inv.step {traced : Traced} (hinv : traced.Inv) {call : Call}
    (hcall : traced.Admissible call) (hclear : traced.ResidualClear call) :
    (traced.step call).Inv := by
  cases call with
  | alarm timeNow =>
      rcases alarm_cases hinv hcall with ⟨_, _, hnext⟩ | ⟨hnotClear, _⟩
      · exact hnext
      · exact absurd hclear hnotClear
  | add timeNow newEntry | del timeNow token | next timeNow | dump timeNow =>
      exact hinv.step_call hcall (by simp)

/-- A run of the queue behaves, at every call, exactly when every alarm of the
run meets the condition. -/
theorem timeList_exact_iff (start : Timeval) (hstart : start.Normalised) (calls : List Call)
    (hcalls : Promised machine Admissible (init start) calls) :
    Promised machine Behaves (init start) calls ↔
      Promised machine ResidualClear (init start) calls := by
  refine Promised.congr_invariant Inv (fun _ _ hinv hcall => behaves_iff hinv hcall) ?_
    (init_inv hstart) hcalls
  intro traced call next hinv hcall hclear hstep
  obtain rfl := Option.some.inj hstep
  exact hinv.step hcall hclear

/-- Two events 499 microseconds apart and two alarms at once. -/
def hastyAlarms : List Call :=
  [.add ⟨0, 0⟩ ⟨⟨0, 499⟩, 7, 0⟩, .add ⟨0, 0⟩ ⟨⟨0, 998⟩, 7, 0⟩, .alarm ⟨0, 0⟩, .alarm ⟨0, 0⟩]

/-- The same events, with alarms when they are due. -/
def punctualAlarms : List Call :=
  [.add ⟨0, 0⟩ ⟨⟨0, 499⟩, 7, 0⟩, .add ⟨0, 0⟩ ⟨⟨0, 998⟩, 7, 0⟩, .alarm ⟨0, 499⟩, .alarm ⟨0, 998⟩]

theorem timeList_exact_punctual :
    Promised machine Behaves (init ⟨0, 0⟩) punctualAlarms := by
  refine (timeList_exact_iff ⟨0, 0⟩ (by decide) punctualAlarms ?_).mpr ?_
  · refine .cons ⟨by decide, by decide, by decide⟩ rfl ?_
    refine .cons ⟨by decide, by decide, by decide⟩ rfl ?_
    exact .cons ⟨by decide, by decide⟩ rfl (.cons ⟨by decide, by decide⟩ rfl trivial)
  · refine .cons trivial rfl (.cons trivial rfl (.cons ?_ rfl (.cons ?_ rfl trivial)))
    · intro first second rest hnodes
      obtain ⟨rfl, _⟩ := List.cons.inj hnodes
      exact Or.inl (by decide)
    · intro first second rest hnodes
      have hlast : [] = second :: rest := (List.cons.inj hnodes).2
      cases hlast

/-- The first alarm fires the first event 499 microseconds early and pulls the
second one forward by as much; the second alarm, at the same moment, fires it
998 microseconds early. -/
theorem hastyAlarms_drift :
    Promised machine Admissible (init ⟨0, 0⟩) hastyAlarms ∧
      ¬ Promised machine Behaves (init ⟨0, 0⟩) hastyAlarms ∧
      ¬ Promised machine OnTime (init ⟨0, 0⟩) hastyAlarms := by
  refine ⟨?_, ?_, ?_⟩
  · refine .cons ⟨by decide, by decide, by decide⟩ rfl ?_
    refine .cons ⟨by decide, by decide, by decide⟩ rfl ?_
    exact .cons ⟨by decide, by decide⟩ rfl (.cons ⟨by decide, by decide⟩ rfl trivial)
  · intro hbehaves
    have hkept := ((hbehaves.2 _ rfl).2 _ rfl).1.2
    exact absurd (hkept.2 0 ⟨2, 998, 1⟩ (by decide)) (by decide)
  · intro honTime
    have hlast := (((honTime.2 _ rfl).2 _ rfl).2 _ rfl).1
    exact absurd (hlast (by decide) ⟨2, 998, 1⟩ (by decide)) (by decide)

end Traced

end McuProxy.Ckits
