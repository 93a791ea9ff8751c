/-
# Runs of the timer queue by one thread

Firing takes a prefix of the list, so what an alarm fires is right because the
list is ordered, and the order has to survive every insertion: three ways of
adding an event, and the re-arming of a periodic one while the rest of its
batch is still waiting. All four go through `addEventInternal`, whose invariant
is `QueueInv`.

Nothing is lost or fired twice because of a conservation law: at any moment
every unit created so far is in exactly one of the list, the batch, the
cancelled units and the one-shot units already fired.
-/

import McuProxy.Net.TimedEventQ

namespace McuProxy.Net.TimedEventQ

open McuProxy.Math McuProxy.Time McuProxy.Time.Timeval

/-- The order of the list: by deadline, and by insertion among equal ones. -/
def Earlier (first second : EventUnit) : Prop :=
  first.tvAbsolute < second.tvAbsolute ∨
    first.tvAbsolute = second.tvAbsolute ∧ first.stamp < second.stamp

/-- A periodic unit that the queue has accepted has an admissible period. -/
def PeriodOk (unit : EventUnit) : Prop := unit.type.isPeriod = true → unit.period ≤ maxPeriodDelay

/-- What every reachable queue satisfies. -/
structure QueueInv (queue : TimedEventQ) : Prop where
  sorted : queue.mList.Pairwise Earlier
  stamp_lt : ∀ unit ∈ queue.mList, unit.stamp < queue.inserted
  uid_lt : ∀ unit ∈ queue.mList, unit.uid < queue.created
  period_ok : ∀ unit ∈ queue.mList, PeriodOk unit

/-- Every unit created is in the list or in `outside`, and only once. -/
def Conserves (queue : TimedEventQ) (outside : List EventUnit) : Prop :=
  ((queue.mList ++ outside).map EventUnit.uid).Perm (List.range queue.created)

/-- The calls the law speaks of: `addAbsTimedEvent` does not check its type, and
is used with the one-shot types. -/
def AddCall.OneShotAbs : AddCall → Prop
  | .absTimed _ _ type _ => type.isPeriod = false
  | _ => True

def FireEnv.OneShotAbs (env : FireEnv) : Prop := ∀ call ∈ env.adds, call.OneShotAbs

theorem init_inv : QueueInv init :=
  ⟨List.Pairwise.nil, by simp [init], by simp [init], by simp [init]⟩

/-! ## Insertion -/

theorem mem_addEventInternal {queue : TimedEventQ} {unit other : EventUnit} :
    other ∈ (queue.addEventInternal unit).mList ↔
      other = { unit with stamp := queue.inserted } ∨ other ∈ queue.mList :=
  mem_insertBefore

/-- The one place where the list grows keeps the order. -/
theorem addEventInternal_inv {queue : TimedEventQ} (hinv : QueueInv queue) {unit : EventUnit}
    (huid : unit.uid < queue.created) (hperiod : PeriodOk unit) :
    QueueInv (queue.addEventInternal unit) where
  sorted := by
    apply insertBefore_pairwise hinv.sorted
    · intro other _ hbehind
      left
      simpa [timeOverthan_eq_decide] using hbehind
    · intro other hother hbefore
      have hle : other.tvAbsolute ≤ unit.tvAbsolute := by
        simpa [timeOverthan_eq_decide] using hbefore
      rcases hle.lt_or_eq with hlt | heq
      · exact Or.inl hlt
      · exact Or.inr ⟨heq, hinv.stamp_lt other hother⟩
    · intro first _ second _ hearlier hbehind
      have hlt : unit.tvAbsolute < first.tvAbsolute := by
        simpa [timeOverthan_eq_decide] using hbehind
      have hle : first.tvAbsolute ≤ second.tvAbsolute := by
        rcases hearlier with hless | ⟨heq, _⟩
        · exact hless.le
        · exact heq.le
      simpa [timeOverthan_eq_decide] using hlt.trans_le hle
  stamp_lt := by
    intro other hother
    rcases mem_addEventInternal.mp hother with rfl | hold
    · exact Nat.lt_succ_self _
    · exact Nat.lt_succ_of_lt (hinv.stamp_lt other hold)
  uid_lt := by
    intro other hother
    rcases mem_addEventInternal.mp hother with rfl | hold
    · exact huid
    · exact hinv.uid_lt other hold
  period_ok := by
    intro other hother
    rcases mem_addEventInternal.mp hother with rfl | hold
    · exact hperiod
    · exact hinv.period_ok other hold

/-- An insertion moves the unit from outside into the list. -/
theorem addEventInternal_conserves {queue : TimedEventQ} {unit : EventUnit}
    {outside : List EventUnit} (hcons : Conserves queue (unit :: outside)) :
    Conserves (queue.addEventInternal unit) outside := by
  refine List.Perm.trans ?_ hcons
  have hperm : (queue.addEventInternal unit).mList.Perm
      ({ unit with stamp := queue.inserted } :: queue.mList) := insertBefore_perm _ _ _
  have huids := ((hperm.append_right outside).map EventUnit.uid)
  refine huids.trans ?_
  simp only [List.map_append, List.map_cons, List.cons_append]
  exact List.perm_middle.symm

/-! ## Adding -/

/-- A relative call inserts its unit first and numbers it afterwards. -/
theorem addRelative_cases {queue : TimedEventQ} (hinv : QueueInv queue)
    (accepts : EventType → Bool) (junk : EventUnit) (now : Timeval) (mseconds : Nat)
    (type : EventType) (handler : Nat)
    (hjunk : accepts type = true → type.isPeriod = true → junk.period = mseconds) :
    addRelative accepts queue junk now mseconds type handler = (-1, queue) ∨
      ∃ unit : EventUnit, unit.uid = queue.created ∧ unit.idToken = queue.listToken ∧
        PeriodOk unit ∧
        addRelative accepts queue junk now mseconds type handler =
          (↑queue.listToken, { queue with
            created := queue.created + 1
            listToken := nextToken queue.listToken }.addEventInternal unit) := by
  by_cases hrefuse : handler = 0 ∨ mseconds > maxPeriodDelay ∨ accepts type = false
  · left
    simp only [addRelative, insertRelative, hrefuse, if_true]
  · right
    have haccept := hrefuse
    simp only [not_or, not_lt, Bool.not_eq_false] at haccept
    obtain ⟨_, hdelay, htype⟩ := haccept
    refine ⟨{ junk with
      type := type, handler := handler, tvAbsolute := timePlus now mseconds
      uid := queue.created, idToken := queue.listToken }, rfl, rfl, ?_, ?_⟩
    · intro hperiod
      exact (hjunk htype hperiod).trans_le hdelay
    · simp only [addRelative, insertRelative, hrefuse, if_false, addEventInternal, assignToken]
      rw [map_insertBefore]
      · simp
      · intro other hother
        exact if_neg (hinv.uid_lt other hother).ne

/-- What a call that adds an event does: it is refused without effect, or it
creates one unit, numbers it, and inserts it. -/
theorem AddCall.run_cases {queue : TimedEventQ} (hinv : QueueInv queue) (call : AddCall) :
    call.run queue = (-1, queue) ∨
      ∃ unit : EventUnit, unit.uid = queue.created ∧ unit.idToken = queue.listToken ∧
        (call.OneShotAbs → PeriodOk unit) ∧
        call.run queue = (↑queue.listToken, { queue with
          created := queue.created + 1
          listToken := nextToken queue.listToken }.addEventInternal unit) := by
  cases call with
  | later junk now mseconds type handler =>
      rcases addRelative_cases hinv acceptsLater junk now mseconds type handler
          (by cases type <;> simp [acceptsLater, EventType.isPeriod]) with
        hrefused | ⟨unit, huid, htoken, hperiod, hrun⟩
      · exact Or.inl hrefused
      · exact Or.inr ⟨unit, huid, htoken, fun _ => hperiod, hrun⟩
  | period junk now mseconds type handler =>
      rcases addRelative_cases hinv acceptsPeriod { junk with period := mseconds } now mseconds
        type handler (fun _ _ => rfl) with
        hrefused | ⟨unit, huid, htoken, hperiod, hrun⟩
      · exact Or.inl hrefused
      · exact Or.inr ⟨unit, huid, htoken, fun _ => hperiod, hrun⟩
  | absTimed junk absTime type handler =>
      by_cases hnull : handler = 0
      · left
        simp [AddCall.run, addAbsTimedEvent, hnull]
      · right
        refine ⟨{ junk with
          tvAbsolute := absTime, type := type, handler := handler, idToken := queue.listToken
          uid := queue.created }, rfl, rfl, ?_, ?_⟩
        · intro honeShot hperiod
          exact absurd hperiod (by simpa [AddCall.OneShotAbs] using honeShot)
        · simp [AddCall.run, addAbsTimedEvent, hnull]

/-- A queue whose counters alone have moved on. -/
theorem QueueInv.recount {queue : TimedEventQ} (hinv : QueueInv queue) {token created : Nat}
    (hcreated : queue.created ≤ created) :
    QueueInv { queue with listToken := token, created := created } :=
  ⟨hinv.sorted, hinv.stamp_lt, fun unit hunit => (hinv.uid_lt unit hunit).trans_le hcreated,
    hinv.period_ok⟩

/-- What an operation that only inserts does to a queue: it keeps the invariant
and the conservation law, and loses no unit of the list. -/
structure Grows (before after : TimedEventQ) : Prop where
  inv : QueueInv after
  created_le : before.created ≤ after.created
  keeps : ∀ unit ∈ before.mList, unit ∈ after.mList
  conserves : ∀ outside, Conserves before outside → Conserves after outside

theorem Grows.refl {queue : TimedEventQ} (hinv : QueueInv queue) : Grows queue queue :=
  ⟨hinv, le_rfl, fun _ hunit => hunit, fun _ hcons => hcons⟩

theorem Grows.trans {first second third : TimedEventQ} (hfirst : Grows first second)
    (hsecond : Grows second third) : Grows first third :=
  ⟨hsecond.inv, hfirst.created_le.trans hsecond.created_le,
    fun unit hunit => hsecond.keeps unit (hfirst.keeps unit hunit),
    fun outside hcons => hsecond.conserves outside (hfirst.conserves outside hcons)⟩

theorem AddCall.run_grows {queue : TimedEventQ} (hinv : QueueInv queue) {call : AddCall}
    (hcall : call.OneShotAbs) : Grows queue (call.run queue).2 := by
  rcases AddCall.run_cases hinv call with hrefused | ⟨unit, huid, _, hperiod, hrun⟩
  · rw [hrefused]
    exact Grows.refl hinv
  · rw [hrun]
    refine ⟨?_, Nat.le_succ _, ?_, ?_⟩
    · apply addEventInternal_inv (hinv.recount (Nat.le_succ _))
      · rw [huid]
        exact Nat.lt_succ_self _
      · exact hperiod hcall
    · exact fun other hother => mem_addEventInternal.mpr (Or.inr hother)
    · intro outside hcons
      apply addEventInternal_conserves
      -- The new unit carries the next number, so it extends the range by one.
      show ((queue.mList ++ unit :: outside).map EventUnit.uid).Perm
        (List.range (queue.created + 1))
      have hperm : ((queue.mList ++ unit :: outside).map EventUnit.uid).Perm
          (queue.created :: (queue.mList ++ outside).map EventUnit.uid) := by
        simp only [List.map_append, List.map_cons, huid]
        exact List.perm_middle
      rw [List.range_succ]
      exact hperm.trans ((hcons.cons queue.created).trans (List.perm_append_singleton _ _).symm)

theorem runAdds_grows {queue : TimedEventQ} (hinv : QueueInv queue) {calls : List AddCall}
    (hcalls : ∀ call ∈ calls, call.OneShotAbs) : Grows queue (queue.runAdds calls) := by
  induction calls generalizing queue with
  | nil => exact Grows.refl hinv
  | cons call calls ih =>
      have hfirst := AddCall.run_grows hinv (hcalls call List.mem_cons_self)
      exact hfirst.trans
        (ih hfirst.inv fun other hother => hcalls other (List.mem_cons_of_mem _ hother))

/-! ## Alarms -/

/-- Detaching splits an ordered list into what is due and what is not. -/
theorem detach_eq {queue : TimedEventQ} (hinv : QueueInv queue) (timeNow : Timeval) :
    queue.detach timeNow =
      (queue.mList.filter fun unit => unit.tvAbsolute ≤ timeNow,
        { queue with
          mList := queue.mList.filter fun unit => !decide (unit.tvAbsolute ≤ timeNow) }) := by
  have hsplit := takeWhile_eq_filter (fun unit => timeOverthan timeNow unit.tvAbsolute)
    hinv.sorted (by
      intro first _ second _ hearlier hdue
      have hle : first.tvAbsolute ≤ second.tvAbsolute := by
        rcases hearlier with hless | ⟨heq, _⟩
        · exact hless.le
        · exact heq.le
      rw [timeOverthan_iff] at hdue ⊢
      exact hle.trans hdue)
  rw [detach, hsplit.1, hsplit.2]
  simp only [timeOverthan_eq_decide]

theorem detach_inv {queue : TimedEventQ} (hinv : QueueInv queue) (timeNow : Timeval) :
    QueueInv (queue.detach timeNow).2 := by
  rw [detach_eq hinv]
  have hsub := List.filter_sublist (p := fun unit : EventUnit =>
    !decide (unit.tvAbsolute ≤ timeNow)) (l := queue.mList)
  exact ⟨hinv.sorted.sublist hsub, fun unit hunit => hinv.stamp_lt unit (hsub.subset hunit),
    fun unit hunit => hinv.uid_lt unit (hsub.subset hunit),
    fun unit hunit => hinv.period_ok unit (hsub.subset hunit)⟩

/-- The batch is outside the list until it is processed. -/
theorem detach_conserves {queue : TimedEventQ} (timeNow : Timeval) {outside : List EventUnit}
    (hcons : Conserves queue outside) :
    Conserves (queue.detach timeNow).2 ((queue.detach timeNow).1 ++ outside) := by
  refine List.Perm.trans (List.Perm.map _ ?_) hcons
  rw [← List.append_assoc]
  apply List.Perm.append_right
  refine List.perm_append_comm.trans ?_
  exact List.Perm.of_eq (List.takeWhile_append_dropWhile)

/-- The units of a processed batch that stay fired: the one-shot ones. -/
def oneShots (units : List EventUnit) : List EventUnit :=
  units.filter fun unit => !unit.type.isPeriod

/-- A unit as a re-arming at the reading `now` puts it back. -/
def rearmed (entry : EventUnit) (now : Timeval) (stamp : Nat) : EventUnit :=
  { entry with tvAbsolute := timePlus now entry.period, stamp := stamp }

/-- In a list of distinct units, a number singles out its unit. -/
theorem filter_uid_eq_singleton {units : List EventUnit}
    (hnodup : (units.map EventUnit.uid).Nodup) {unit : EventUnit} (hunit : unit ∈ units) :
    (units.filter fun other => other.uid = unit.uid) = [unit] := by
  induction units with
  | nil => simp at hunit
  | cons first rest ih =>
      obtain ⟨hfirst, hrest⟩ := List.nodup_cons.mp hnodup
      rcases List.mem_cons.mp hunit with rfl | hunit'
      · have hnone : rest.filter (fun other => other.uid = unit.uid) = [] := by
          simp only [List.filter_eq_nil_iff, decide_eq_true_eq]
          exact fun other hother heq => hfirst (heq ▸ List.mem_map_of_mem hother)
        simp [hnone]
      · have hne : first.uid ≠ unit.uid := fun heq =>
          hfirst (heq ▸ List.mem_map_of_mem hunit')
        simp [hne, ih hrest hunit']

/-- One turn of the alarm: the queue only grows, a one-shot unit stays outside,
and a periodic one is in the list again, a period after the reading. -/
theorem processEntry_spec {queue : TimedEventQ} (hinv : QueueInv queue) {env : FireEnv}
    (henv : env.OneShotAbs) {entry : EventUnit} (huid : entry.uid < queue.created)
    (hperiod : PeriodOk entry) :
    QueueInv (queue.processEntry env entry) ∧
      queue.created ≤ (queue.processEntry env entry).created ∧
      (∀ unit ∈ queue.mList, unit ∈ (queue.processEntry env entry).mList) ∧
      (∀ outside, Conserves queue (entry :: outside) →
        Conserves (queue.processEntry env entry) (oneShots [entry] ++ outside)) ∧
      (entry.type.isPeriod = true →
        ∃ stamp, rearmed entry env.rearmAt stamp ∈ (queue.processEntry env entry).mList) := by
  have hrearm : QueueInv (queue.rearm env.rearmAt entry) :=
    addEventInternal_inv hinv huid hperiod
  have hback : ∀ outside, Conserves queue (entry :: outside) →
      Conserves (queue.rearm env.rearmAt entry) outside := by
    intro outside hcons
    apply addEventInternal_conserves
    simpa [Conserves] using hcons
  have hkeeps : ∀ unit ∈ queue.mList, unit ∈ (queue.rearm env.rearmAt entry).mList :=
    fun unit hunit => mem_addEventInternal.mpr (Or.inr hunit)
  have hmember : ∃ stamp, rearmed entry env.rearmAt stamp ∈ (queue.rearm env.rearmAt entry).mList :=
    ⟨queue.inserted, mem_addEventInternal.mpr (Or.inl rfl)⟩
  obtain ⟨tvAbsolute, type, handler, idToken, period, uid, stamp⟩ := entry
  cases type with
  | timedCallback =>
      have hgrows := runAdds_grows hinv henv
      exact ⟨hgrows.inv, hgrows.created_le, hgrows.keeps, fun outside => hgrows.conserves _,
        by simp [EventType.isPeriod]⟩
  | timedRecycle =>
      exact ⟨hinv, le_rfl, fun _ hunit => hunit, fun _ hcons => hcons,
        by simp [EventType.isPeriod]⟩
  | periodCondition => exact ⟨hrearm, le_rfl, hkeeps, hback, fun _ => hmember⟩
  | periodSemaphore => exact ⟨hrearm, le_rfl, hkeeps, hback, fun _ => hmember⟩

theorem Conserves.perm {queue : TimedEventQ} {outside outside' : List EventUnit}
    (hcons : Conserves queue outside) (hperm : outside.Perm outside') :
    Conserves queue outside' :=
  ((hperm.symm.append_left queue.mList).map _).trans hcons

/-- The loop over the batch fires the whole batch in order. -/
theorem processBatch_fired (env : Nat → FireEnv) (turn : Nat) (batch : List EventUnit)
    (queue : TimedEventQ) : (processBatch env turn batch queue).1 = batch := by
  induction batch generalizing turn queue with
  | nil => rfl
  | cons entry batch ih => rw [processBatch, ih]

/-- What the loop over a batch leaves. -/
theorem processBatch_spec {env : Nat → FireEnv} (henv : ∀ turn, (env turn).OneShotAbs)
    {batch : List EventUnit} (turn : Nat) {queue : TimedEventQ} (hinv : QueueInv queue)
    (hbatch : ∀ entry ∈ batch, entry.uid < queue.created ∧ PeriodOk entry) :
    QueueInv (processBatch env turn batch queue).2 ∧
      (∀ unit ∈ queue.mList, unit ∈ (processBatch env turn batch queue).2.mList) ∧
      (∀ outside, Conserves queue (batch ++ outside) →
        Conserves (processBatch env turn batch queue).2 (oneShots batch ++ outside)) ∧
      ∀ (k : Nat) (entry : EventUnit), batch[k]? = some entry → entry.type.isPeriod = true →
        ∃ stamp, rearmed entry (env (turn + k)).rearmAt stamp ∈
          (processBatch env turn batch queue).2.mList := by
  induction batch generalizing turn queue with
  | nil => exact ⟨hinv, fun _ hunit => hunit, fun _ hcons => hcons, by simp⟩
  | cons entry batch ih =>
      obtain ⟨huid, hperiod⟩ := hbatch entry List.mem_cons_self
      obtain ⟨hinv', hcreated, hkeeps, hcons', hmember⟩ :=
        processEntry_spec hinv (henv turn) huid hperiod
      obtain ⟨hfinal, hkeepsRest, hconsRest, hmemberRest⟩ := ih (turn + 1) hinv' (by
        intro other hother
        obtain ⟨hlt, hok⟩ := hbatch other (List.mem_cons_of_mem _ hother)
        exact ⟨hlt.trans_le hcreated, hok⟩)
      refine ⟨hfinal, fun unit hunit => hkeepsRest unit (hkeeps unit hunit), ?_, ?_⟩
      · intro outside hcons
        have hturn : Conserves (queue.processEntry (env turn) entry)
            (batch ++ (oneShots [entry] ++ outside)) :=
          (hcons' (batch ++ outside) hcons).perm (by
            rw [← List.append_assoc, ← List.append_assoc]
            exact List.perm_append_comm.append_right outside)
        refine (hconsRest _ hturn).perm ?_
        rw [← List.append_assoc]
        apply List.Perm.append_right
        have hsplit : oneShots (entry :: batch) = oneShots [entry] ++ oneShots batch := by
          rw [oneShots, oneShots, oneShots, ← List.filter_append, List.singleton_append]
        rw [hsplit]
        exact List.perm_append_comm
      · intro k unit hunit hunitPeriod
        cases k with
        | zero =>
            obtain rfl : entry = unit := by simpa using hunit
            obtain ⟨stamp, hstamp⟩ := hmember hunitPeriod
            exact ⟨stamp, hkeepsRest _ hstamp⟩
        | succ k =>
            have hrest := hmemberRest k unit (by simpa using hunit) hunitPeriod
            rwa [show turn + 1 + k = turn + (k + 1) by omega] at hrest

/-- A whole alarm, from a reachable queue. -/
theorem handleAlarmEvent_spec {queue : TimedEventQ} (hinv : QueueInv queue) (timeNow : Timeval)
    {env : Nat → FireEnv} (henv : ∀ turn, (env turn).OneShotAbs) :
    (queue.handleAlarmEvent timeNow env).1 =
        queue.mList.filter (fun unit => unit.tvAbsolute ≤ timeNow) ∧
      QueueInv (queue.handleAlarmEvent timeNow env).2 ∧
      (∀ unit ∈ queue.mList, ¬ unit.tvAbsolute ≤ timeNow →
        unit ∈ (queue.handleAlarmEvent timeNow env).2.mList) ∧
      (∀ outside, Conserves queue outside →
        Conserves (queue.handleAlarmEvent timeNow env).2
          (oneShots (queue.handleAlarmEvent timeNow env).1 ++ outside)) ∧
      ∀ (k : Nat) (entry : EventUnit), (queue.handleAlarmEvent timeNow env).1[k]? = some entry →
        entry.type.isPeriod = true →
          ∃ stamp, rearmed entry (env k).rearmAt stamp ∈
            (queue.handleAlarmEvent timeNow env).2.mList := by
  have hdetach := detach_eq hinv timeNow
  have hfired : (queue.handleAlarmEvent timeNow env).1 = (queue.detach timeNow).1 :=
    processBatch_fired env 0 _ _
  have hbatch : ∀ entry ∈ (queue.detach timeNow).1,
      entry.uid < (queue.detach timeNow).2.created ∧ PeriodOk entry := by
    intro entry hentry
    have hmember : entry ∈ queue.mList := List.mem_of_mem_filter (by rwa [hdetach] at hentry)
    exact ⟨hinv.uid_lt entry hmember, hinv.period_ok entry hmember⟩
  obtain ⟨hfinal, hkeeps, hcons, hmember⟩ :=
    processBatch_spec henv 0 (detach_inv hinv timeNow) hbatch
  refine ⟨by rw [hfired, hdetach], hfinal, ?_, ?_, ?_⟩
  · intro unit hunit hlater
    apply hkeeps unit
    rw [hdetach]
    exact List.mem_filter.mpr ⟨hunit, by simpa using hlater⟩
  · intro outside hold
    rw [hfired]
    exact hcons outside (detach_conserves timeNow hold)
  · intro k entry hentry hperiod
    rw [hfired] at hentry
    simpa [handleAlarmEvent] using hmember k entry hentry hperiod

/-! ## Cancelling -/

/-- The unit a cancellation takes out, if there is one. -/
def cancelled (queue : TimedEventQ) (token : Nat) : List EventUnit :=
  (queue.mList.find? fun unit => unit.idToken = token).toList

theorem delTimedEvent_inv {queue : TimedEventQ} (hinv : QueueInv queue) (token : Nat) :
    QueueInv (queue.delTimedEvent token) := by
  have hsub := List.eraseP_sublist (p := fun unit : EventUnit => decide (unit.idToken = token))
    (l := queue.mList)
  exact ⟨hinv.sorted.sublist hsub, fun unit hunit => hinv.stamp_lt unit (hsub.subset hunit),
    fun unit hunit => hinv.uid_lt unit (hsub.subset hunit),
    fun unit hunit => hinv.period_ok unit (hsub.subset hunit)⟩

/-- A cancellation moves one unit from the list to the cancelled ones. -/
theorem delTimedEvent_conserves {queue : TimedEventQ} (token : Nat) {outside : List EventUnit}
    (hcons : Conserves queue outside) :
    Conserves (queue.delTimedEvent token) (queue.cancelled token ++ outside) := by
  refine List.Perm.trans (List.Perm.map _ ?_) hcons
  rw [← List.append_assoc]
  apply List.Perm.append_right
  show (queue.mList.eraseP _ ++ (queue.mList.find? _).toList).Perm queue.mList
  cases hfind : queue.mList.find? fun unit => unit.idToken = token with
  | none =>
      rw [List.eraseP_of_forall_not]
      · simp
      · simpa using hfind
  | some unit =>
      obtain ⟨hunit, pre, post, hlist, hpre⟩ := List.find?_eq_some_iff_append.mp hfind
      rw [hlist, List.eraseP_append_right]
      · rw [List.eraseP_cons, hunit, cond_true, Option.toList_some, List.append_assoc]
        exact (List.perm_append_comm.append_left pre).trans (by simp)
      · simpa using hpre

/-! ## Whole runs -/

/-- The calls of a single thread. The environment of an alarm says what its
callbacks add and what the clock reads at each re-arming. -/
inductive Call
  | add (call : AddCall)
  | del (token : Nat)
  | alarm (timeNow : Timeval) (env : Nat → FireEnv)

def Call.OneShotAbs : Call → Prop
  | .add call => call.OneShotAbs
  | .del _ => True
  | .alarm _ env => ∀ turn, (env turn).OneShotAbs

/-- A queue with the record of what was fired and what was cancelled. -/
structure TimerLog where
  queue : TimedEventQ
  fired : List EventUnit
  cancelled : List EventUnit

def TimerLog.step (log : TimerLog) : Call → TimerLog
  | .add call => { log with queue := (call.run log.queue).2 }
  | .del token =>
      { log with
        queue := log.queue.delTimedEvent token
        cancelled := log.queue.cancelled token ++ log.cancelled }
  | .alarm timeNow env =>
      let result := log.queue.handleAlarmEvent timeNow env
      { log with queue := result.2, fired := result.1 ++ log.fired }

/-- A run from the fresh queue. -/
def runCalls (calls : List Call) : TimerLog := calls.foldl TimerLog.step ⟨init, [], []⟩

/-- The conservation law of a log: every unit ever created is pending, cancelled,
or a one-shot unit that has fired; it is one of these, and once. -/
def TimerLog.Accounted (log : TimerLog) : Prop :=
  Conserves log.queue (oneShots log.fired ++ log.cancelled)

theorem TimerLog.step_inv {log : TimerLog} (hinv : QueueInv log.queue) (hlog : log.Accounted)
    {call : Call} (hcall : call.OneShotAbs) :
    QueueInv (log.step call).queue ∧ (log.step call).Accounted := by
  cases call with
  | add call =>
      have hgrows := AddCall.run_grows hinv hcall
      exact ⟨hgrows.inv, hgrows.conserves _ hlog⟩
  | del token =>
      refine ⟨delTimedEvent_inv hinv token, ?_⟩
      refine (delTimedEvent_conserves token hlog).perm ?_
      show (log.queue.cancelled token ++ (oneShots log.fired ++ log.cancelled)).Perm
        (oneShots log.fired ++ (log.queue.cancelled token ++ log.cancelled))
      rw [← List.append_assoc, ← List.append_assoc]
      exact List.perm_append_comm.append_right log.cancelled
  | alarm timeNow env =>
      obtain ⟨_, hinv', _, hcons, _⟩ := handleAlarmEvent_spec hinv timeNow hcall
      refine ⟨hinv', ?_⟩
      have hnow := hcons _ hlog
      rw [← List.append_assoc] at hnow
      have hsplit : oneShots ((log.queue.handleAlarmEvent timeNow env).1 ++ log.fired) =
          oneShots (log.queue.handleAlarmEvent timeNow env).1 ++ oneShots log.fired :=
        List.filter_append ..
      show Conserves _ (oneShots ((log.queue.handleAlarmEvent timeNow env).1 ++ log.fired) ++ _)
      rw [hsplit]
      exact hnow

theorem runCalls_inv {calls : List Call} (hcalls : ∀ call ∈ calls, call.OneShotAbs) :
    QueueInv (runCalls calls).queue ∧ (runCalls calls).Accounted := by
  induction calls using List.reverseRecOn with
  | nil => exact ⟨init_inv, List.Perm.refl _⟩
  | append_singleton calls call ih =>
      obtain ⟨hinv, hlog⟩ := ih fun other hother => hcalls other (by simp [hother])
      rw [runCalls, List.foldl_append]
      exact TimerLog.step_inv hinv hlog (hcalls call (by simp))

/-- The run law of the timer queue. After any sequence of calls by one thread,
with arbitrary clock readings and callbacks that add further events:

* the list is ordered by deadline, and by insertion among equal deadlines, also
  after every turn of an alarm;
* an alarm fires exactly the pending units whose deadline is not after the
  reading, in the order of the list; the others stay pending;
* a periodic unit that fires is pending again, exactly once, at the reading of
  its re-arming plus its period;
* every unit ever created is pending, cancelled by its token, or a one-shot
  unit that has fired; one of these, and once. In particular no one-shot unit
  fires twice. -/
theorem timer_run_law (calls : List Call) (hcalls : ∀ call ∈ calls, call.OneShotAbs) :
    (runCalls calls).queue.mList.Pairwise Earlier ∧
      (((runCalls calls).queue.mList ++
        (oneShots (runCalls calls).fired ++ (runCalls calls).cancelled)).map EventUnit.uid).Perm
          (List.range (runCalls calls).queue.created) ∧
      ((oneShots (runCalls calls).fired).map EventUnit.uid).Nodup ∧
      ∀ timeNow env, (∀ turn, FireEnv.OneShotAbs (env turn)) →
        ((runCalls calls).queue.handleAlarmEvent timeNow env).1 =
            (runCalls calls).queue.mList.filter (fun unit => unit.tvAbsolute ≤ timeNow) ∧
          (∀ turns, (processBatch env 0
            (((runCalls calls).queue.detach timeNow).1.take turns)
              ((runCalls calls).queue.detach timeNow).2).2.mList.Pairwise Earlier) ∧
          (∀ unit ∈ (runCalls calls).queue.mList, ¬ unit.tvAbsolute ≤ timeNow →
            unit ∈ ((runCalls calls).queue.handleAlarmEvent timeNow env).2.mList) ∧
          ∀ (turn : Nat) (unit : EventUnit),
            ((runCalls calls).queue.handleAlarmEvent timeNow env).1[turn]? = some unit →
            unit.type.isPeriod = true → ∃ stamp,
              ((runCalls calls).queue.handleAlarmEvent timeNow env).2.mList.filter
                  (fun other => other.uid = unit.uid) =
                [rearmed unit (env turn).rearmAt stamp] ∧
              (rearmed unit (env turn).rearmAt stamp).tvAbsolute.micros =
                (env turn).rearmAt.micros + unit.period * 1000 := by
  obtain ⟨hinv, hlog⟩ := runCalls_inv hcalls
  have hnodup : (((runCalls calls).queue.mList ++
      (oneShots (runCalls calls).fired ++ (runCalls calls).cancelled)).map
        EventUnit.uid).Nodup := hlog.nodup_iff.mpr List.nodup_range
  refine ⟨hinv.sorted, hlog, ?_, ?_⟩
  · simp only [List.map_append] at hnodup
    exact (hnodup.of_append_right).of_append_left
  · intro timeNow env henv
    obtain ⟨hfired, hinv', hkeeps, hcons, hperiod⟩ := handleAlarmEvent_spec hinv timeNow henv
    refine ⟨hfired, ?_, hkeeps, ?_⟩
    · intro turns
      refine (processBatch_spec henv 0 (detach_inv hinv timeNow) ?_).1.sorted
      intro entry hentry
      have hmember : entry ∈ (runCalls calls).queue.mList := by
        have hbatch := List.mem_of_mem_take hentry
        rw [detach_eq hinv] at hbatch
        exact List.mem_of_mem_filter hbatch
      exact ⟨hinv.uid_lt entry hmember, hinv.period_ok entry hmember⟩
    · intro turn unit hunit hunitPeriod
      obtain ⟨stamp, hstamp⟩ := hperiod turn unit hunit hunitPeriod
      have huids : (((runCalls calls).queue.handleAlarmEvent timeNow env).2.mList.map
          EventUnit.uid).Nodup := by
        have hall := (hcons _ hlog).nodup_iff.mpr List.nodup_range
        rw [List.map_append] at hall
        exact hall.of_append_left
      have hmember : unit ∈ (runCalls calls).queue.mList := by
        have hfilter := List.mem_of_getElem? hunit
        rw [hfired] at hfilter
        exact List.mem_of_mem_filter hfilter
      exact ⟨stamp, filter_uid_eq_singleton huids hstamp,
        timePlus_micros _ (hinv.period_ok unit hmember hunitPeriod)⟩

/-- A periodic event, two one-shot ones of which the second is cancelled, and an
alarm whose callback adds a fourth event. -/
def sampleCalls : List Call :=
  let junk : EventUnit := ⟨zero, .timedCallback, 0, 0, 0, 0, 0⟩
  [.add (.period junk zero 20 .periodSemaphore 7),
    .add (.later junk zero 10 .timedCallback 8),
    .add (.absTimed junk ⟨0, 15000⟩ .timedRecycle 9),
    .del 3,
    .alarm ⟨0, 25000⟩ fun _ =>
      { adds := [.later junk ⟨0, 25000⟩ 1 .timedRecycle 9], rearmAt := ⟨0, 26000⟩ }]

/-- A second alarm is due for what is pending behind the first one: the event that the callback
added, and the periodic event, which is pending once more after it. -/
theorem timer_run_law_sample :
    (runCalls sampleCalls).fired.map EventUnit.uid = [1, 0] ∧
      (runCalls sampleCalls).queue.mList.map EventUnit.uid = [3, 0] ∧
      (runCalls sampleCalls).queue.mList.Pairwise Earlier ∧
      (((runCalls sampleCalls).queue.mList ++ (oneShots (runCalls sampleCalls).fired ++
        (runCalls sampleCalls).cancelled)).map EventUnit.uid).Perm [0, 1, 2, 3] ∧
      ∃ fired after, (runCalls sampleCalls).queue.handleAlarmEvent ⟨0, 60000⟩
          (fun _ => { adds := [], rearmAt := ⟨0, 61000⟩ }) = (fired, after) ∧
        fired = (runCalls sampleCalls).queue.mList ∧
        ∃ unit stamp, fired[1]? = some unit ∧
          after.mList.filter (fun other => other.uid = unit.uid) =
            [rearmed unit ⟨0, 61000⟩ stamp] ∧
          (rearmed unit ⟨0, 61000⟩ stamp).tvAbsolute.micros = 81000 := by
  have hcalls : ∀ call ∈ sampleCalls, call.OneShotAbs := by
    intro call hcall
    fin_cases hcall
    · trivial
    · trivial
    · rfl
    · trivial
    · intro turn other hother
      fin_cases hother
      trivial
  obtain ⟨hsorted, hlog, -, halarm⟩ := timer_run_law sampleCalls hcalls
  obtain ⟨hfired, -, -, hperiod⟩ := halarm ⟨0, 60000⟩
    (fun _ => { adds := [], rearmAt := ⟨0, 61000⟩ })
      fun _ _ hother => absurd hother List.not_mem_nil
  have hall : (runCalls sampleCalls).queue.mList.filter
      (fun unit => unit.tvAbsolute ≤ ⟨0, 60000⟩) = (runCalls sampleCalls).queue.mList := by decide
  rw [hall] at hfired
  refine ⟨by decide, by decide, hsorted, hlog, _, _, rfl, hfired, ?_⟩
  obtain ⟨unit, hunit⟩ : ∃ unit, (runCalls sampleCalls).queue.mList[1]? = some unit :=
    Option.isSome_iff_exists.mp (by decide)
  have hperiodic : (runCalls sampleCalls).queue.mList[1]?.all (fun unit =>
      unit.type.isPeriod && unit.period == 20) = true := by decide
  rw [hunit, Option.all_some, Bool.and_eq_true, beq_iff_eq] at hperiodic
  rw [← hfired] at hunit
  obtain ⟨stamp, hfilter, hdue⟩ := hperiod 1 unit hunit hperiodic.1
  refine ⟨unit, stamp, hunit, hfilter, hdue.trans ?_⟩
  rw [hperiodic.2]
  rfl

end McuProxy.Net.TimedEventQ
