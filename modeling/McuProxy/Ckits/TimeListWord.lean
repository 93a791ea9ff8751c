/-
# The delta queue on 32-bit fields

The functions of `timeList.c` once more, with the fields of `struct timeval` as
32-bit words that wrap. The nodes of the list do not notice: what they store
stays in range as long as delays are, and there the functions are those of
`TimeList`.

The head is another matter. It is the node after the last one, and
`delAlarmEventNode` gives the time of the node that it unlinks to the node behind
it. With the last node the time goes to the head, whose infinity is the largest
value there is: one microsecond more and it is negative. A head that comes round
to zero looks like an event that is due, and `handleAlarmEvent` unlinks it.
-/

import McuProxy.Ckits.TimeListRun
import McuProxy.Math.Armv7

namespace McuProxy.Ckits.TimeList32

open McuProxy.Math McuProxy.Time McuProxy.Time.Timeval

/-- `time_interval`. -/
def timeInterval (tv2 tv1 : Timeval) : Timeval :=
  let ret : Timeval := ⟨signed32 (tv2.tvSec - tv1.tvSec), signed32 (tv2.tvUsec - tv1.tvUsec)⟩
  let ret := if ret.tvUsec < 0 then ⟨signed32 (ret.tvSec - 1), signed32 (ret.tvUsec + million)⟩
    else ret
  if ret.tvSec < 0 then zero else ret

/-- The loop of `synchronize`. -/
def synchronizeNodes (timeSinceLastSync : Timeval) : List AlarmEventNode → List AlarmEventNode
  | [] => []
  | cur :: rest =>
      if timeOverthan timeSinceLastSync cur.tvRemain then
        { cur with tvRemain := zero } ::
          synchronizeNodes (timeInterval timeSinceLastSync cur.tvRemain) rest
      else { cur with tvRemain := timeInterval cur.tvRemain timeSinceLastSync } :: rest

def synchronize (lst : TimeListType) (timeNow : Timeval) : TimeListType :=
  { lst with
    nodes := synchronizeNodes (timeInterval timeNow lst.tvLastSync) lst.nodes
    tvLastSync := timeNow }

/-- The loop of `addAlarmEventNode`. -/
def addNodes (newEntry : AlarmEventNode) : List AlarmEventNode → List AlarmEventNode
  | [] => [newEntry]
  | cur :: rest =>
      if timeOverthan newEntry.tvRemain cur.tvRemain then
        cur :: addNodes { newEntry with
          tvRemain := timeInterval newEntry.tvRemain cur.tvRemain } rest
      else newEntry :: { cur with tvRemain := timeInterval cur.tvRemain newEntry.tvRemain } :: rest

/-- `addAlarmEventNode`. -/
def addAlarmEventNode (lst : TimeListType) (timeNow : Timeval) (newEntry : AlarmEventNode) :
    Nat × TimeListType :=
  let lst := synchronize lst timeNow
  (lst.listToken, { lst with
    nodes := addNodes { newEntry with idToken := lst.listToken } lst.nodes
    listToken := (lst.listToken + 1) &&& 0x0FFFFFFF })

/-- `timeToNextAlarmEvent`. -/
def timeToNextAlarmEvent (lst : TimeListType) (timeNow : Timeval) : Timeval × TimeListType :=
  let lst := synchronize lst timeNow
  (firstRemain lst, lst)

/-- What `handleAlarmEvent` unlinks: nothing, a node, or the head of the list. -/
inductive Unlinked
  | nothing
  | node (cur : AlarmEventNode)
  | eventHead
  deriving DecidableEq, Repr

/-- `handleAlarmEvent` up to the callback. -/
def handleAlarmEvent (lst : TimeListType) (timeNow : Timeval) : Unlinked × TimeListType :=
  let lst := if (firstRemain lst).tvSec ≠ 0 ∨ (firstRemain lst).tvUsec ≠ 0
    then synchronize lst timeNow else lst
  if (firstRemain lst).tvSec = 0 ∧ (firstRemain lst).tvUsec < 1000 / 2 then
    match lst.nodes with
    | [] => (.eventHead, lst)
    | cur :: rest => (.node cur, { lst with nodes := rest })
  else (.nothing, lst)

/-- What `delAlarmEventNode` adds to the node after the one it unlinks. -/
def carryOver (next entry : Timeval) : Timeval :=
  let sum : Timeval := ⟨signed32 (next.tvSec + entry.tvSec), signed32 (next.tvUsec + entry.tvUsec)⟩
  if sum.tvUsec ≥ million then ⟨signed32 (sum.tvSec + 1), signed32 (sum.tvUsec - million)⟩ else sum

/-- The unlinking of the first node with the token. The node after the last one
is the head. -/
def unlinkNode (token : Nat) (headRemain : Timeval) :
    List AlarmEventNode → Timeval × List AlarmEventNode
  | [] => (headRemain, [])
  | [entry] =>
      if token = entry.idToken then (carryOver headRemain entry.tvRemain, [])
      else (headRemain, [entry])
  | entry :: next :: rest =>
      if token = entry.idToken then
        (headRemain, { next with tvRemain := carryOver next.tvRemain entry.tvRemain } :: rest)
      else
        let unlinked := unlinkNode token headRemain (next :: rest)
        (unlinked.1, entry :: unlinked.2)

/-- `delAlarmEventNode`. -/
def delAlarmEventNode (lst : TimeListType) (timeNow : Timeval) (token : Nat) :
    Option AlarmEventNode × TimeListType :=
  let lst := synchronize lst timeNow
  match queryAlarmEventNode lst token with
  | none => (none, lst)
  | some entry =>
      let unlinked := unlinkNode token lst.headRemain lst.nodes
      (some entry, { lst with headRemain := unlinked.1, nodes := unlinked.2 })

/-- `dumpTimeList`. -/
def dumpTimeList (lst : TimeListType) (timeNow : Timeval) : Nat × TimeListType :=
  let lst := synchronize lst timeNow
  (lst.nodes.length, lst)

/-- One call. A list whose head has been unlinked is no list any more: its links
are null. -/
def step (lst : TimeListType) : Call → Option TimeListType
  | .add timeNow newEntry => some (addAlarmEventNode lst timeNow newEntry).2
  | .del timeNow token => some (delAlarmEventNode lst timeNow token).2
  | .next timeNow => some (timeToNextAlarmEvent lst timeNow).2
  | .dump timeNow => some (dumpTimeList lst timeNow).2
  | .alarm timeNow =>
      if (handleAlarmEvent lst timeNow).1 = .eventHead then none
      else some (handleAlarmEvent lst timeNow).2

/-! ## What fits -/

/-- A time span that fits into the fields. -/
def Fits (tv : Timeval) : Prop := tv.Delay ∧ tv.tvSec < 2147483648

instance (tv : Timeval) : Decidable (Fits tv) := inferInstanceAs (Decidable (_ ∧ _))

/-- Readings and delays that fit. The clock may be set back. -/
def Admissible (_ : TimeListType) : Call → Prop
  | .add timeNow newEntry => Fits timeNow ∧ Fits newEntry.tvRemain
  | .del timeNow _ | .next timeNow | .dump timeNow | .alarm timeNow => Fits timeNow

instance (lst : TimeListType) : (call : Call) → Decidable (Admissible lst call)
  | .add timeNow newEntry => inferInstanceAs (Decidable (Fits timeNow ∧ Fits newEntry.tvRemain))
  | .del timeNow _ | .next timeNow | .dump timeNow | .alarm timeNow =>
      inferInstanceAs (Decidable (Fits timeNow))

/-- Time spans of less than this many microseconds fit. -/
def limit : Int := 2147483648 * 1000000

theorem fits_iff {tv : Timeval} (hdelay : tv.Delay) : Fits tv ↔ tv.micros < limit := by
  obtain ⟨hsec, hlow, hhigh⟩ := hdelay
  simp only [Fits, Delay, Normalised, micros, limit]
  omega

theorem signed32_of_range {value : Int} (hlow : -2147483648 ≤ value) (hhigh : value ≤ 2147483647) :
    signed32 value = value := signed32_of_int32 (int32_eq_some hlow hhigh)

theorem timeInterval_eq {tv2 tv1 : Timeval} (h2 : Fits tv2) (h1 : Fits tv1) :
    timeInterval tv2 tv1 = Time.timeInterval tv2 tv1 := by
  obtain ⟨⟨hsec2, hlow2, hhigh2⟩, hfits2⟩ := h2
  obtain ⟨⟨hsec1, hlow1, hhigh1⟩, hfits1⟩ := h1
  simp (disch := omega) only [timeInterval, Time.timeInterval, signed32_of_range]
  split
  · rename_i hborrow
    rw [signed32_of_range (by simp only [million]; omega) (by simp only [million]; omega)]
  · rfl

/-- An interval is not longer than what it is taken from. -/
theorem timeInterval_fits {tv2 tv1 : Timeval} (h2 : Fits tv2) (h1 : Fits tv1) :
    Fits (Time.timeInterval tv2 tv1) := by
  obtain ⟨hdelay, hmicros⟩ := timeInterval_spec h2.1.2 h1.1.2
  have hlt := (fits_iff h2.1).mp h2
  have hnonneg := micros_nonneg h1.1
  rw [fits_iff hdelay, hmicros]
  have hpos : 0 < limit := by decide
  omega

theorem carryOver_eq {next entry : Timeval} (hnext : next.Delay) (hentry : entry.Delay)
    (hsum : next.micros + entry.micros < limit) :
    carryOver next entry = Ckits.carryOver next entry := by
  obtain ⟨hsec, hlow, hhigh⟩ := hnext
  obtain ⟨hsec', hlow', hhigh'⟩ := hentry
  simp only [micros, limit] at hsum
  simp (disch := omega) only [carryOver, Ckits.carryOver, signed32_of_range]
  split
  · rename_i hcarry
    simp only [million] at hcarry
    rw [signed32_of_range (by omega) (by omega),
      signed32_of_range (by simp only [million]; omega) (by simp only [million]; omega)]
  · rfl

/-! ## The nodes -/

/-- What the nodes store fits: each delay does, and so does the time from the last
synchronisation to each event. -/
structure NodesFit (nodes : List AlarmEventNode) : Prop where
  delays : Delays nodes
  due_lt : ∀ entry ∈ timeline 0 (deltas nodes), entry.2 < limit

section

variable {nodes : List AlarmEventNode} {node : AlarmEventNode} {timeNow elapsed : Timeval}
  {lst : TimeListType}

theorem nodesFit_cons : NodesFit (node :: nodes) ↔
    node.tvRemain.Delay ∧ node.tvRemain.micros < limit ∧ Delays nodes ∧
      ∀ entry ∈ timeline node.tvRemain.micros (deltas nodes), entry.2 < limit := by
  constructor
  · rintro ⟨hdelays, hdue⟩
    simp only [deltas, List.map_cons, timeline, zero_add, List.forall_mem_cons] at hdue
    exact ⟨hdelays node List.mem_cons_self, hdue.1, hdelays.tail, hdue.2⟩
  · rintro ⟨hdelay, hlt, hdelays, hdue⟩
    refine ⟨Delays.cons hdelay hdelays, ?_⟩
    simp only [deltas, List.map_cons, timeline, zero_add, List.forall_mem_cons]
    exact ⟨hlt, hdue⟩

/-- Without the first node the others are nearer. -/
theorem NodesFit.tail (hfit : NodesFit (node :: nodes)) : NodesFit nodes := by
  obtain ⟨hdelay, -, hdelays, hdue⟩ := nodesFit_cons.mp hfit
  refine ⟨hdelays, fun entry hentry => ?_⟩
  have hshift := timeline_shift node.tvRemain.micros 0 (deltas nodes)
  rw [add_zero] at hshift
  have hlater := hdue (entry.1, node.tvRemain.micros + entry.2)
    (hshift ▸ List.mem_map.mpr ⟨entry, hentry, rfl⟩)
  have hnonneg := micros_nonneg hdelay
  simp only at hlater
  omega

/-- What a node stores fits. -/
theorem NodesFit.fits (hfit : NodesFit nodes) (hnode : node ∈ nodes) : Fits node.tvRemain := by
  induction nodes with
  | nil => cases hnode
  | cons first rest ih =>
      rcases List.mem_cons.mp hnode with rfl | hrest
      · obtain ⟨hdelay, hlt, -⟩ := nodesFit_cons.mp hfit
        exact (fits_iff hdelay).mpr hlt
      · exact ih hfit.tail hrest

theorem synchronizeNodes_eq (helapsed : Fits elapsed) (hfit : ∀ node ∈ nodes, Fits node.tvRemain) :
    synchronizeNodes elapsed nodes = Ckits.synchronizeNodes elapsed nodes := by
  induction nodes generalizing elapsed with
  | nil => rfl
  | cons cur rest ih =>
      obtain ⟨hcur, hrest⟩ := List.forall_mem_cons.mp hfit
      rw [synchronizeNodes, Ckits.synchronizeNodes, timeInterval_eq helapsed hcur,
        timeInterval_eq hcur helapsed, ih (timeInterval_fits helapsed hcur) hrest]

theorem addNodes_eq {newEntry : AlarmEventNode} (hnew : Fits newEntry.tvRemain)
    (hfit : ∀ node ∈ nodes, Fits node.tvRemain) :
    addNodes newEntry nodes = Ckits.addNodes newEntry nodes := by
  induction nodes generalizing newEntry with
  | nil => rfl
  | cons cur rest ih =>
      obtain ⟨hcur, hrest⟩ := List.forall_mem_cons.mp hfit
      have hrec := @ih
        { newEntry with tvRemain := Time.timeInterval newEntry.tvRemain cur.tvRemain }
        (timeInterval_fits hnew hcur) hrest
      rw [addNodes, Ckits.addNodes, timeInterval_eq hnew hcur, timeInterval_eq hcur hnew, hrec]

/-- The nodes that are left do not depend on the head. -/
theorem unlinkNode_nodes_eq (token : Nat) (headRemain : Timeval) (hfit : NodesFit nodes) :
    (unlinkNode token headRemain nodes).2 = (Ckits.unlinkNode token headRemain nodes).2 := by
  induction nodes with
  | nil => rfl
  | cons entry rest ih =>
      cases rest with
      | nil =>
          rw [unlinkNode, Ckits.unlinkNode]
          split <;> rfl
      | cons next rest =>
          obtain ⟨hentry, -, hdelays, hdue⟩ := nodesFit_cons.mp hfit
          have hnext : next.tvRemain.Delay := hdelays next List.mem_cons_self
          have hsum : next.tvRemain.micros + entry.tvRemain.micros < limit := by
            have hlt := hdue (next.idToken, entry.tvRemain.micros + next.tvRemain.micros)
              List.mem_cons_self
            simp only at hlt
            omega
          rw [unlinkNode, Ckits.unlinkNode, carryOver_eq hnext hentry hsum]
          split
          · rfl
          · exact congrArg (entry :: ·) (ih hfit.tail)

/-- Letting time pass. -/
theorem NodesFit.synchronizeNodes (hfit : NodesFit nodes) (helapsed : Fits elapsed) :
    NodesFit (synchronizeNodes elapsed nodes) := by
  rw [synchronizeNodes_eq helapsed fun node hnode => hfit.fits hnode]
  obtain ⟨hdelays, hdeltas⟩ := synchronizeNodes_spec helapsed.1 hfit.delays
  refine ⟨hdelays, ?_⟩
  rw [hdeltas, timeline_advance (micros_nonneg helapsed.1) (deltas_nonneg hfit.delays)]
  intro entry hentry
  obtain ⟨old, hold, rfl⟩ := List.mem_map.mp hentry
  have hlt := hfit.due_lt old hold
  have hnonneg := micros_nonneg helapsed.1
  have hpos : 0 < limit := by decide
  simp only
  omega

/-- A new node. -/
theorem NodesFit.addNodes {newEntry : AlarmEventNode} (hfit : NodesFit nodes)
    (hnew : Fits newEntry.tvRemain) : NodesFit (addNodes newEntry nodes) := by
  rw [addNodes_eq hnew fun node hnode => hfit.fits hnode]
  obtain ⟨hdelays, hdeltas⟩ := addNodes_spec hnew.1 hfit.delays
  refine ⟨hdelays, ?_⟩
  rw [hdeltas, timeline_place]
  intro entry hentry
  rcases mem_insertBefore.mp hentry with rfl | hold
  · rw [zero_add]
    exact (fits_iff hnew.1).mp hnew
  · exact hfit.due_lt entry hold

/-- A node less. -/
theorem NodesFit.unlinkNode (hfit : NodesFit nodes) (token : Nat) (headRemain : Timeval) :
    NodesFit (unlinkNode token headRemain nodes).2 := by
  rw [unlinkNode_nodes_eq token headRemain hfit]
  obtain ⟨hdelays, hdeltas⟩ := unlinkNode_spec token headRemain hfit.delays
  refine ⟨hdelays, ?_⟩
  rw [hdeltas, timeline_withdraw]
  exact fun entry hentry => hfit.due_lt entry (List.mem_of_mem_eraseP hentry)

/-! ## The head -/

/-- The head changes only with the last node. -/
theorem unlinkNode_head {token : Nat} {headRemain : Timeval}
    (hlast : ∀ front entry, nodes = front ++ [entry] → token = entry.idToken →
      (∀ other ∈ front, token ≠ other.idToken) → carryOver headRemain entry.tvRemain = headRemain) :
    (unlinkNode token headRemain nodes).1 = headRemain := by
  induction nodes with
  | nil => rfl
  | cons entry rest ih =>
      cases rest with
      | nil =>
          rw [unlinkNode]
          split
          · rename_i htoken
            exact hlast [] entry rfl htoken (by simp)
          · rfl
      | cons next rest =>
          rw [unlinkNode]
          split
          · rfl
          · rename_i htoken
            refine ih fun front last hrest hlastToken hfront => ?_
            refine hlast (entry :: front) last (by rw [hrest]; rfl) hlastToken ?_
            exact List.forall_mem_cons.mpr ⟨htoken, hfront⟩

theorem synchronizeNodes_tokens (elapsed : Timeval) (nodes : List AlarmEventNode) :
    (synchronizeNodes elapsed nodes).map AlarmEventNode.idToken =
      nodes.map AlarmEventNode.idToken := by
  induction nodes generalizing elapsed with
  | nil => rfl
  | cons cur rest ih =>
      rw [synchronizeNodes]
      split
      · rw [List.map_cons, List.map_cons, ih]
      · rfl

/-- The last node is at zero after a synchronisation if it was before, or if the
time of all nodes is up. -/
theorem synchronizeNodes_last {front : List AlarmEventNode} {entry : AlarmEventNode}
    (helapsed : Fits elapsed) (hfit : ∀ node ∈ front ++ [entry], Fits node.tvRemain)
    (hspent : entry.tvRemain = zero ∨
      ((front ++ [entry]).map fun node => node.tvRemain.micros).sum ≤ elapsed.micros) :
    ∃ front', synchronizeNodes elapsed (front ++ [entry]) =
      front' ++ [{ entry with tvRemain := zero }] := by
  induction front generalizing elapsed with
  | nil =>
      have hentry := hfit entry (by simp)
      have hdue : timeOverthan elapsed entry.tvRemain = true := by
        rw [timeOverthan_iff, le_iff_micros_le hentry.1.2 helapsed.1.2]
        rcases hspent with hzero | hsum
        · rw [hzero]
          exact micros_nonneg helapsed.1
        · simpa using hsum
      refine ⟨[], ?_⟩
      rw [List.nil_append, synchronizeNodes, if_pos hdue]
      rfl
  | cons cur front ih =>
      obtain ⟨hcur, hrest⟩ := List.forall_mem_cons.mp hfit
      rw [List.cons_append, synchronizeNodes]
      have hcompare : timeOverthan elapsed cur.tvRemain = true ↔
          cur.tvRemain.micros ≤ elapsed.micros := by
        rw [timeOverthan_iff, le_iff_micros_le hcur.1.2 helapsed.1.2]
      by_cases hdue : cur.tvRemain.micros ≤ elapsed.micros
      · rw [if_pos (hcompare.mpr hdue), timeInterval_eq helapsed hcur]
        have hleft := (timeInterval_spec helapsed.1.2 hcur.1.2).2
        rw [max_eq_right (sub_nonneg.mpr hdue)] at hleft
        obtain ⟨front', hsync⟩ := ih (timeInterval_fits helapsed hcur) hrest
          (hspent.imp_right fun hsum => by
            simp only [List.cons_append, List.map_cons, List.sum_cons] at hsum
            omega)
        exact ⟨{ cur with tvRemain := zero } :: front', by rw [hsync]; rfl⟩
      · rw [if_neg (hcompare.not.mpr hdue)]
        -- The loop stops here, and the last node keeps its zero.
        have hzero : entry.tvRemain = zero := by
          refine hspent.resolve_right fun hsum => hdue ?_
          have hnonneg : 0 ≤ ((front ++ [entry]).map fun node => node.tvRemain.micros).sum := by
            refine List.sum_nonneg ?_
            intro value hvalue
            obtain ⟨node, hnode, rfl⟩ := List.mem_map.mp hvalue
            exact micros_nonneg (hrest node hnode).1
          simp only [List.cons_append, List.map_cons, List.sum_cons] at hsum
          omega
        refine ⟨{ cur with tvRemain := timeInterval cur.tvRemain elapsed } :: front, ?_⟩
        rw [← hzero]
        rfl

end

/-! ## What is stored, whatever the head is -/

/-- The part of the invariant that does not speak of the head. -/
structure Stored (lst : TimeListType) : Prop where
  nodes : NodesFit lst.nodes
  sync : Fits lst.tvLastSync

section

variable {lst next : TimeListType} {timeNow : Timeval}

theorem initTimeList_stored (hnow : Fits timeNow) : Stored (initTimeList timeNow) :=
  ⟨⟨by simp [initTimeList, Delays], by simp [initTimeList, deltas, timeline]⟩, hnow⟩

theorem Stored.elapsed_fits (hstored : Stored lst) (hnow : Fits timeNow) :
    Fits (timeInterval timeNow lst.tvLastSync) := by
  rw [timeInterval_eq hnow hstored.sync]
  exact timeInterval_fits hnow hstored.sync

theorem Stored.elapsed_micros (hstored : Stored lst) (hnow : Fits timeNow) :
    (timeInterval timeNow lst.tvLastSync).micros =
      max 0 (timeNow.micros - lst.tvLastSync.micros) := by
  rw [timeInterval_eq hnow hstored.sync]
  exact (timeInterval_spec hnow.1.2 hstored.sync.1.2).2

theorem Stored.synchronize (hstored : Stored lst) (hnow : Fits timeNow) :
    Stored (synchronize lst timeNow) :=
  ⟨hstored.nodes.synchronizeNodes (hstored.elapsed_fits hnow), hnow⟩

theorem Stored.add (hstored : Stored lst) (hnow : Fits timeNow) {newEntry : AlarmEventNode}
    (hnew : Fits newEntry.tvRemain) : Stored (addAlarmEventNode lst timeNow newEntry).2 :=
  ⟨(hstored.synchronize hnow).nodes.addNodes hnew, hnow⟩

theorem Stored.del (hstored : Stored lst) (hnow : Fits timeNow) (token : Nat) :
    Stored (delAlarmEventNode lst timeNow token).2 := by
  have hsync := hstored.synchronize hnow
  rw [delAlarmEventNode]
  cases queryAlarmEventNode (TimeList32.synchronize lst timeNow) token with
  | none => exact hsync
  | some entry => exact ⟨hsync.nodes.unlinkNode _ _, hnow⟩

/-- The list on which an alarm decides. -/
theorem Stored.settled (hstored : Stored lst) (hnow : Fits timeNow) :
    Stored (if (firstRemain lst).tvSec ≠ 0 ∨ (firstRemain lst).tvUsec ≠ 0
      then TimeList32.synchronize lst timeNow else lst) := by
  split
  · exact hstored.synchronize hnow
  · exact hstored

theorem Stored.alarm (hstored : Stored lst) (hnow : Fits timeNow) :
    Stored (handleAlarmEvent lst timeNow).2 := by
  have hsettled := hstored.settled hnow
  rw [handleAlarmEvent]
  generalize (if (firstRemain lst).tvSec ≠ 0 ∨ (firstRemain lst).tvUsec ≠ 0
    then TimeList32.synchronize lst timeNow else lst) = settled at hsettled
  split
  · cases hnodes : settled.nodes with
    | nil => exact hsettled
    | cons cur rest =>
        have hfit := hsettled.nodes
        rw [hnodes] at hfit
        exact ⟨hfit.tail, hsettled.sync⟩
  · exact hsettled

/-- Every call on a list keeps what is stored in range. -/
theorem Stored.step (hstored : Stored lst) {call : Call} (hcall : Admissible lst call)
    (hstep : step lst call = some next) : Stored next := by
  cases call with
  | add timeNow newEntry =>
      obtain rfl := Option.some.inj hstep
      exact hstored.add hcall.1 hcall.2
  | del timeNow token =>
      obtain rfl := Option.some.inj hstep
      exact hstored.del hcall token
  | next timeNow =>
      obtain rfl := Option.some.inj hstep
      exact hstored.synchronize hcall
  | dump timeNow =>
      obtain rfl := Option.some.inj hstep
      exact hstored.synchronize hcall
  | alarm timeNow =>
      simp only [TimeList32.step] at hstep
      split at hstep
      · cases hstep
      · obtain rfl := Option.some.inj hstep
        exact hstored.alarm hcall

end

/-! ## Runs -/

/-- The condition on a call in the state before it: a deletion that finds its node
at the end of the list finds it at the same moment as the one before it, or when
the time of all nodes is up. -/
def TailSpent (lst : TimeListType) : Call → Prop
  | .del timeNow token =>
      ∀ entry ∈ lst.nodes.getLast?, token = entry.idToken →
        (∀ other ∈ lst.nodes.dropLast, token ≠ other.idToken) →
        entry.tvRemain = zero ∨ (lst.nodes.map fun node => node.tvRemain.micros).sum ≤
          max 0 (timeNow.micros - lst.tvLastSync.micros)
  | _ => True

/-- Without a pending event the time to the next one is infinite, and an alarm
never unlinks the head. -/
def SentinelKept (lst : TimeListType) : Call → Prop
  | .next timeNow => lst.nodes = [] → (timeToNextAlarmEvent lst timeNow).1 = infinity
  | .alarm timeNow => (handleAlarmEvent lst timeNow).1 ≠ .eventHead
  | _ => True

instance (lst : TimeListType) : (call : Call) → Decidable (TailSpent lst call)
  | .del timeNow token => inferInstanceAs (Decidable (∀ entry ∈ lst.nodes.getLast?,
      token = entry.idToken → (∀ other ∈ lst.nodes.dropLast, token ≠ other.idToken) →
      entry.tvRemain = zero ∨ (lst.nodes.map fun node => node.tvRemain.micros).sum ≤
        max 0 (timeNow.micros - lst.tvLastSync.micros)))
  | .add _ _ | .next _ | .dump _ | .alarm _ => inferInstanceAs (Decidable True)

instance (lst : TimeListType) : (call : Call) → Decidable (SentinelKept lst call)
  | .next timeNow => inferInstanceAs (Decidable
      (lst.nodes = [] → (timeToNextAlarmEvent lst timeNow).1 = infinity))
  | .alarm timeNow => inferInstanceAs (Decidable ((handleAlarmEvent lst timeNow).1 ≠ .eventHead))
  | .add _ _ | .del _ _ | .dump _ => inferInstanceAs (Decidable True)

/-- What every state of a run satisfies whose deletions meet the condition. -/
structure Inv (lst : TimeListType) : Prop where
  head : lst.headRemain = infinity
  nodes : NodesFit lst.nodes
  sync : Fits lst.tvLastSync

section

variable {lst : TimeListType} {timeNow : Timeval}

theorem initTimeList_inv (hnow : Fits timeNow) : Inv (initTimeList timeNow) :=
  ⟨rfl, (initTimeList_stored hnow).nodes, hnow⟩

theorem Inv.stored (hinv : Inv lst) : Stored lst := ⟨hinv.nodes, hinv.sync⟩

theorem Stored.inv (hstored : Stored lst) (hhead : lst.headRemain = infinity) : Inv lst :=
  ⟨hhead, hstored.nodes, hstored.sync⟩

theorem Inv.synchronize (hinv : Inv lst) (hnow : Fits timeNow) : Inv (synchronize lst timeNow) :=
  (hinv.stored.synchronize hnow).inv hinv.head

theorem Inv.add (hinv : Inv lst) (hnow : Fits timeNow) {newEntry : AlarmEventNode}
    (hnew : Fits newEntry.tvRemain) : Inv (addAlarmEventNode lst timeNow newEntry).2 :=
  (hinv.stored.add hnow hnew).inv hinv.head

/-- What a synchronisation leaves of the last node, if it is spent. -/
theorem Inv.last_spent (hinv : Inv lst) (hnow : Fits timeNow) {token : Nat}
    (hspent : TailSpent lst (.del timeNow token)) {front : List AlarmEventNode}
    {entry : AlarmEventNode}
    (hnodes : (TimeList32.synchronize lst timeNow).nodes = front ++ [entry])
    (htoken : token = entry.idToken) (hfront : ∀ other ∈ front, token ≠ other.idToken) :
    entry.tvRemain = zero := by
  have helapsed := hinv.stored.elapsed_fits hnow
  have hmicros := hinv.stored.elapsed_micros hnow
  -- The same node was the last one before, with other nodes of the same tokens before it.
  have htokens := synchronizeNodes_tokens (timeInterval timeNow lst.tvLastSync) lst.nodes
  have hnodes' : synchronizeNodes (timeInterval timeNow lst.tvLastSync) lst.nodes =
    front ++ [entry] := hnodes
  rw [hnodes', List.map_append, List.map_singleton] at htokens
  obtain ⟨before, rest, hbefore, hbeforeTokens, hrest⟩ := List.map_eq_append_iff.mp htokens.symm
  obtain ⟨last, rfl, hlastToken⟩ := List.map_eq_singleton_iff.mp hrest
  have hlast := hspent last (by simp [hbefore]) (htoken.trans hlastToken.symm) ?_
  · rw [hbefore, ← hmicros] at hlast
    obtain ⟨front', hsync⟩ := synchronizeNodes_last helapsed
      (hbefore ▸ fun node hnode => hinv.nodes.fits hnode) hlast
    rw [hbefore, hsync] at hnodes'
    obtain ⟨-, hsame⟩ := List.append_inj' hnodes' rfl
    obtain rfl := List.singleton_inj.mp hsame
    rfl
  · intro other hother
    rw [hbefore, List.dropLast_concat] at hother
    have hmem : other.idToken ∈ front.map AlarmEventNode.idToken :=
      hbeforeTokens ▸ List.mem_map.mpr ⟨other, hother, rfl⟩
    obtain ⟨twin, htwin, heq⟩ := List.mem_map.mp hmem
    exact heq ▸ hfront twin htwin

theorem Inv.del (hinv : Inv lst) (hnow : Fits timeNow) {token : Nat}
    (hspent : TailSpent lst (.del timeNow token)) :
    Inv (delAlarmEventNode lst timeNow token).2 := by
  refine (hinv.stored.del hnow token).inv ?_
  have hsync := hinv.synchronize hnow
  rw [delAlarmEventNode]
  cases queryAlarmEventNode (TimeList32.synchronize lst timeNow) token with
  | none => exact hsync.head
  | some entry =>
      refine (unlinkNode_head fun front last hnodes htoken hfront => ?_).trans hsync.head
      rw [hinv.last_spent hnow hspent hnodes htoken hfront, hsync.head]
      decide

/-- An alarm on a list whose head is infinite. -/
theorem Inv.alarm (hinv : Inv lst) (hnow : Fits timeNow) :
    (handleAlarmEvent lst timeNow).1 ≠ .eventHead ∧ Inv (handleAlarmEvent lst timeNow).2 := by
  suffices hhead : (handleAlarmEvent lst timeNow).1 ≠ .eventHead ∧
      (handleAlarmEvent lst timeNow).2.headRemain = infinity from
    ⟨hhead.1, (hinv.stored.alarm hnow).inv hhead.2⟩
  have hsettled : (if (firstRemain lst).tvSec ≠ 0 ∨ (firstRemain lst).tvUsec ≠ 0
      then TimeList32.synchronize lst timeNow else lst).headRemain = infinity := by
    split
    · exact hinv.head
    · exact hinv.head
  rw [handleAlarmEvent]
  generalize (if (firstRemain lst).tvSec ≠ 0 ∨ (firstRemain lst).tvUsec ≠ 0
    then TimeList32.synchronize lst timeNow else lst) = settled at hsettled
  split
  · rename_i hdue
    cases hnodes : settled.nodes with
    | nil =>
        rw [firstRemain, hnodes, hsettled] at hdue
        exact absurd hdue.1 (by decide)
    | cons cur rest => exact ⟨by simp, hsettled⟩
  · exact ⟨by simp, hsettled⟩

/-- Every call that meets the condition keeps the invariant. -/
theorem Inv.step (hinv : Inv lst) {call : Call} (hcall : Admissible lst call)
    (hspent : TailSpent lst call) : ∃ next, step lst call = some next ∧ Inv next := by
  cases call with
  | add timeNow newEntry => exact ⟨_, rfl, hinv.add hcall.1 hcall.2⟩
  | del timeNow token => exact ⟨_, rfl, hinv.del hcall hspent⟩
  | next timeNow => exact ⟨_, rfl, hinv.synchronize hcall⟩
  | dump timeNow => exact ⟨_, rfl, hinv.synchronize hcall⟩
  | alarm timeNow =>
      obtain ⟨hhead, hinv'⟩ := hinv.alarm hcall
      exact ⟨_, if_neg hhead, hinv'⟩

theorem Inv.sentinelKept (hinv : Inv lst) {call : Call} (hcall : Admissible lst call) :
    SentinelKept lst call := by
  cases call with
  | next timeNow =>
      intro hempty
      rw [timeToNextAlarmEvent, firstRemain, TimeList32.synchronize, hempty, synchronizeNodes]
      exact hinv.head
  | alarm timeNow => exact (hinv.alarm hcall).1
  | add | del | dump => trivial

end

/-- In a run whose deletions of the last node find it spent, the time to the next
event is infinite whenever none is pending, no alarm unlinks the head, and every
call leaves a list. -/
theorem sentinel_kept_of_tailSpent {start : Timeval} (hstart : Fits start) {calls : List Call}
    (hcalls : Promised step Admissible (initTimeList start) calls)
    (hspent : Promised step TailSpent (initTimeList start) calls) :
    (∃ final, runMachine step (initTimeList start) calls = some final) ∧
      Promised step SentinelKept (initTimeList start) calls := by
  have hinit := initTimeList_inv hstart
  obtain ⟨final, hrun, -⟩ := runMachine_invariant Inv
    (fun lst call hinv hboth => hinv.step hboth.1 hboth.2) hinit (hcalls.and hspent)
  refine ⟨⟨final, hrun⟩, Promised.imp_invariant Inv
    (fun lst call hinv hboth => hinv.sentinelKept hboth.1) ?_ hinit (hcalls.and hspent)⟩
  intro lst call next hinv hboth hstep
  obtain ⟨other, hother, hinv'⟩ := hinv.step hboth.1 hboth.2
  obtain rfl := Option.some.inj (hother.symm.trans hstep)
  exact hinv'

/-- A run that deletes the last node twice: an event that is due together with the
one before it, and one whose time is up. -/
def spentDeletions : List Call :=
  [.add ⟨0, 0⟩ ⟨⟨5, 0⟩, 7, 0⟩, .add ⟨0, 0⟩ ⟨⟨5, 0⟩, 7, 0⟩, .del ⟨1, 0⟩ 2,
    .add ⟨2, 0⟩ ⟨⟨9, 0⟩, 7, 0⟩, .del ⟨11, 0⟩ 3, .alarm ⟨11, 0⟩, .next ⟨12, 0⟩, .alarm ⟨12, 0⟩]

theorem sentinel_kept_spentDeletions :
    (∃ final, runMachine step (initTimeList ⟨0, 0⟩) spentDeletions = some final) ∧
      Promised step SentinelKept (initTimeList ⟨0, 0⟩) spentDeletions :=
  sentinel_kept_of_tailSpent (by decide) (by decide +kernel) (by decide +kernel)

/-- An event that is cancelled ten seconds before it is due turns the infinity of
the empty list into a negative time. Two that are cancelled at the right times
turn it into zero, and the next alarm unlinks the head. -/
theorem sentinel_lost :
    (Promised step Admissible (initTimeList ⟨0, 0⟩)
        [.add ⟨0, 0⟩ ⟨⟨10, 0⟩, 7, 0⟩, .del ⟨0, 0⟩ 1, .next ⟨0, 0⟩] ∧
      ¬ Promised step SentinelKept (initTimeList ⟨0, 0⟩)
        [.add ⟨0, 0⟩ ⟨⟨10, 0⟩, 7, 0⟩, .del ⟨0, 0⟩ 1, .next ⟨0, 0⟩]) ∧
    Promised step Admissible (initTimeList ⟨0, 0⟩)
        [.add ⟨0, 0⟩ ⟨⟨2147483647, 999999⟩, 7, 0⟩, .del ⟨0, 0⟩ 1, .add ⟨0, 0⟩ ⟨⟨0, 2⟩, 7, 0⟩,
          .del ⟨0, 0⟩ 2, .alarm ⟨0, 0⟩] ∧
      ¬ Promised step SentinelKept (initTimeList ⟨0, 0⟩)
        [.add ⟨0, 0⟩ ⟨⟨2147483647, 999999⟩, 7, 0⟩, .del ⟨0, 0⟩ 1, .add ⟨0, 0⟩ ⟨⟨0, 2⟩, 7, 0⟩,
          .del ⟨0, 0⟩ 2, .alarm ⟨0, 0⟩] := by
  decide +kernel

end McuProxy.Ckits.TimeList32
