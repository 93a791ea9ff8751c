/-
# The lock of the socket holder and the last reference

`SocketHolder` keeps no strong references, but `fetch` makes them while it has
`mLock`: one to look at the transport, and one for the variable of its caller. The
variable of a loop still refers to the transport of the event before, and assigning
to it gives that reference up. Where it was the last one, the destructor runs inside
the locked section and closes the transport, which asks the holder to remove it, and
`mLock` is asked for by the thread that has it. The references that the section gives
up elsewhere end in the same way.

Where other owners keep the transports that these statements let go of, no destructor
runs inside a locked section, and no thread asks for a lock that it has.

Every statement of a section that touches a count is a step, so that other threads may
give up their references in between. The list of the holder is the partial map that it
was shown to be.
-/

import McuProxy.Math.Machine
import McuProxy.Net.Holder
import McuProxy.System.RefBase

namespace McuProxy.Net.HolderLock

open McuProxy.Math McuProxy.System

/-- The calls that take `mLock`. -/
inductive Call
  | fetch (sock : Int32)
  | insert (sock : Int32) (inst : Nat)
  | remove (sock : Int32)
  deriving DecidableEq

/-- What is left of a locked section: a statement of `fetch` about the transport of
the entry, the weak reference that `removeItem` gives up, or nothing but the end. -/
inductive Section
  | attemptIncStrong (sock : Int32) (inst : Nat)
  | compare (sock : Int32) (inst : Nat)
  | discard (sock : Int32) (inst : Nat)
  | assign (inst : Nat)
  | replace (inst : Nat)
  | decStrong (inst : Nat)
  | decWeak (inst : Nat)
  | unlock
  deriving DecidableEq

/-- A thread that asks for the lock, with the thread that has it at that moment. -/
structure Request where
  thread : Nat
  call : Call
  lockedBy : Option Nat
  deriving DecidableEq

/-- A destructor that runs, with the thread that has the lock at that moment. -/
structure Destruction where
  inst : Nat
  thread : Nat
  lockedBy : Option Nat
  deriving DecidableEq

/-- `owned` are the strong references of the other owners, `outs` the variables that
the looping threads pass to `fetch`, and `waiting` the threads that wait for the lock.
`alive` are the transports whose destructor has not begun. -/
structure State where
  refs : Nat → RefBase
  alive : Nat → Bool
  sock : Nat → Int32
  holder : LimitedMap Int32 Nat
  owned : Nat → Nat
  outs : List (Option Nat)
  held : Option (Nat × Section)
  waiting : List (Nat × Call)
  requests : List Request
  destroyed : List Destruction

/-- No transport has been referred to; the first `loops` threads are looping threads. -/
def init (loops : Nat) : State where
  refs _ := .new
  alive _ := true
  sock _ := -1
  holder := .empty Holder.containerLimit
  owned _ := 0
  outs := List.replicate loops none
  held := none
  waiting := []
  requests := []
  destroyed := []

/-- A call, the beginning of a locked section, the next statement of it, a strong
reference that an owner takes or that a thread gives up, the end of a loop, and a
write to `sock`. -/
inductive Step
  | call (thread : Nat) (call : Call)
  | lock (k : Nat)
  | advance
  | retain (inst : Nat)
  | drop (thread inst : Nat)
  | leave (thread : Nat)
  | setSock (inst : Nat) (sock : Int32)

namespace State

def lockedBy (state : State) : Option Nat := state.held.map Prod.fst

/-- A thread outside of the holder. -/
def Outside (state : State) (thread : Nat) : Prop :=
  state.lockedBy ≠ some thread ∧ thread ∉ state.waiting.map Prod.fst

instance (state : State) (thread : Nat) : Decidable (state.Outside thread) :=
  inferInstanceAs (Decidable (_ ∧ _))

def setRefs (state : State) (inst : Nat) (refs : RefBase) : State :=
  { state with refs := Function.update state.refs inst refs }

def request (state : State) (thread : Nat) (call : Call) : State :=
  { state with
    waiting := state.waiting ++ [(thread, call)]
    requests := state.requests ++ [⟨thread, call, state.lockedBy⟩] }

/-- `CloseTransport` up to its call of `remove`. -/
def closeTransport (state : State) (thread inst : Nat) : State :=
  if state.sock inst = -1 then state
  else
    ({ state with sock := Function.update state.sock inst (-1) }).request thread
      (.remove (state.sock inst))

/-- `~Transport` closes the transport; `~ITransport` does it again and finds no `sock`. -/
def destruct (state : State) (thread inst : Nat) : State :=
  closeTransport
    { state with
      alive := Function.update state.alive inst false
      destroyed := state.destroyed ++ [⟨inst, thread, state.lockedBy⟩] }
    thread inst

def decStrong (state : State) (thread inst : Nat) : Option State :=
  (state.refs inst).decStrong.map fun (deleted, refs) =>
    if deleted then (state.setRefs inst refs).destruct thread inst else state.setRefs inst refs

def decWeak (state : State) (thread inst : Nat) : State :=
  let (deleted, refs) := (state.refs inst).decWeak
  if deleted then (state.setRefs inst refs).destruct thread inst else state.setRefs inst refs

def goOn (state : State) (thread : Nat) (rest : Section) : State :=
  { state with held := some (thread, rest) }

/-- `removeItem`, once the entry is out of the list. -/
def removeItem : Option Nat → Section
  | some inst => .decWeak inst
  | none => .unlock

/-- A section from the lock to its first statement about a count of a transport in the
list. A transport that is inserted must be there. -/
def enter (state : State) (thread : Nat) : Call → Option State
  | .fetch sock =>
      match state.holder.lookup sock with
      | some inst => some (state.goOn thread (.attemptIncStrong sock inst))
      | none => some (state.goOn thread .unlock)
  | .insert sock inst =>
      if state.alive inst then
        match Holder.mapInsert state.holder sock inst with
        | (.noError, old, holder) =>
            some (({ state with holder := holder }.setRefs inst (state.refs inst).createWeak).goOn
              thread (removeItem old))
        | _ => some (state.goOn thread .unlock)
      else none
  | .remove sock =>
      let (_, old, holder) := Holder.mapRemove state.holder sock
      some ({ state with holder := holder }.goOn thread (removeItem old))

/-- The next statement of a section. -/
def proceed (state : State) (thread : Nat) : Section → Option State
  | .attemptIncStrong sock inst =>
      match (state.refs inst).attemptIncStrong with
      | (true, refs) => some ((state.setRefs inst refs).goOn thread (.compare sock inst))
      | (false, refs) =>
          some (({ state with holder := state.holder.erase sock }.setRefs inst refs).goOn thread
            (.decWeak inst))
  | .compare sock inst =>
      some (state.goOn thread (if state.sock inst ≠ sock then .discard sock inst else .assign inst))
  | .discard sock inst =>
      ({ state with holder := state.holder.erase sock }.goOn thread (.decWeak inst)).decStrong
        thread inst
  | .assign inst =>
      some ((state.setRefs inst (state.refs inst).incStrong).goOn thread (.replace inst))
  | .replace inst =>
      let next :=
        { state with outs := state.outs.set thread (some inst) }.goOn thread (.decStrong inst)
      match state.outs[thread]? with
      | none => none
      | some none => some next
      | some (some old) => next.decStrong thread old
  | .decStrong inst => (state.goOn thread .unlock).decStrong thread inst
  | .decWeak inst => some ((state.goOn thread .unlock).decWeak thread inst)
  | .unlock => some { state with held := none }

def step (state : State) : Step → Option State
  | .call thread call =>
      if state.Outside thread then some (state.request thread call) else none
  | .lock k =>
      match state.held, state.waiting[k]? with
      | none, some (thread, call) =>
          { state with waiting := state.waiting.eraseIdx k }.enter thread call
      | _, _ => none
  | .advance =>
      match state.held with
      | some (thread, rest) =>
          if thread ∈ state.waiting.map Prod.fst then none else state.proceed thread rest
      | none => none
  | .retain inst =>
      if state.alive inst then
        some { state.setRefs inst (state.refs inst).incStrong with
          owned := Function.update state.owned inst (state.owned inst + 1) }
      else none
  | .drop thread inst =>
      if state.Outside thread ∧ 0 < state.owned inst then
        { state with owned := Function.update state.owned inst (state.owned inst - 1) }.decStrong
          thread inst
      else none
  | .leave thread =>
      if state.Outside thread then
        match state.outs[thread]? with
        | some (some old) => { state with outs := state.outs.set thread none }.decStrong thread old
        | _ => some state
      else none
  | .setSock inst sock =>
      if state.alive inst then some { state with sock := Function.update state.sock inst sock }
      else none

/-- The strong references outside of a locked section. -/
def holders (state : State) (inst : Nat) : Nat :=
  state.owned inst + state.outs.count (some inst)

/-- A locked section gives up the transport that its caller fetched before, or one
that has got another `sock`, only while another owner has it, and the weak reference
of an entry only if it is not the last one or the transport had a strong reference. -/
def KeptBy (state : State) (thread : Nat) : Section → Prop
  | .replace inst =>
      ∀ old ∈ (state.outs[thread]?).join, old = inst ∨ 1 < state.holders old
  | .discard _ inst => 0 < state.holders inst
  | .decWeak inst => (state.refs inst).mStrong ≠ none ∨ (state.refs inst).mWeak ≠ 1
  | _ => True

def Kept (state : State) : Step → Prop
  | .advance => ∀ locked ∈ state.held, state.KeptBy locked.1 locked.2
  | _ => True

instance (state : State) (thread : Nat) : ∀ rest, Decidable (state.KeptBy thread rest)
  | .replace _ => inferInstanceAs (Decidable (∀ _ ∈ _, _))
  | .discard _ _ => inferInstanceAs (Decidable (_ < _))
  | .decWeak _ => inferInstanceAs (Decidable (_ ∨ _))
  | .attemptIncStrong _ _ | .compare _ _ | .assign _ | .decStrong _ | .unlock => isTrue trivial

instance (state : State) : ∀ step, Decidable (state.Kept step)
  | .advance => inferInstanceAs (Decidable (∀ _ ∈ _, _))
  | .call _ _ | .lock _ | .retain _ | .drop _ _ | .leave _ | .setSock _ _ => isTrue trivial

end State

/-! ## The account of the references -/

/-- The references to a transport that the rest of a section will give up or store. -/
def Section.temporaries (inst : Nat) : Section → Nat
  | .compare _ other | .discard _ other | .assign other | .decStrong other =>
      if inst = other then 1 else 0
  | .replace other => if inst = other then 2 else 0
  | .attemptIncStrong _ _ | .decWeak _ | .unlock => 0

namespace State

/-- The strong references in a locked section. -/
def temporaries (state : State) (inst : Nat) : Nat :=
  (state.held.map fun (_, rest) => rest.temporaries inst).getD 0

/-- All strong references to a transport. -/
def references (state : State) (inst : Nat) : Nat := state.holders inst + state.temporaries inst

/-- No thread has asked for a lock that it had, and no destructor has run in a thread
that had the lock. -/
def Apart (state : State) : Prop :=
  (∀ request ∈ state.requests, request.lockedBy ≠ some request.thread) ∧
    ∀ destruction ∈ state.destroyed, destruction.lockedBy ≠ some destruction.thread

structure Inv (state : State) : Prop where
  counted : ∀ inst, (state.refs inst).strongCount = state.references inst
  fetched : ∀ thread inst, state.held = some (thread, .decStrong inst) →
    state.outs[thread]? = some (some inst)
  apart : state.Apart

variable {state next : State} {thread inst : Nat}

theorem strongCount_setRefs (refs : RefBase) (other : Nat) :
    ((state.setRefs inst refs).refs other).strongCount =
      if other = inst then refs.strongCount else (state.refs other).strongCount := by
  simp only [setRefs, Function.update_apply]
  split <;> rfl

/-- A request of a thread that does not have the lock. -/
theorem Apart.request (hapart : state.Apart) (hthread : state.lockedBy ≠ some thread)
    (call : Call) : (state.request thread call).Apart := by
  refine ⟨fun request hmem => ?_, hapart.2⟩
  rcases List.mem_append.mp hmem with hold | hnew
  · exact hapart.1 request hold
  · obtain rfl := List.mem_singleton.mp hnew
    exact hthread

theorem Apart.closeTransport (hapart : state.Apart) (hthread : state.lockedBy ≠ some thread) :
    (state.closeTransport thread inst).Apart := by
  unfold State.closeTransport
  split
  · exact hapart
  · exact Apart.request hapart hthread _

/-- A destructor that runs in a thread that does not have the lock. -/
theorem Apart.destruct (hapart : state.Apart) (hthread : state.lockedBy ≠ some thread) :
    (state.destruct thread inst).Apart := by
  refine Apart.closeTransport ⟨hapart.1, fun destruction hmem => ?_⟩ hthread
  rcases List.mem_append.mp hmem with hold | hnew
  · exact hapart.2 destruction hold
  · obtain rfl := List.mem_singleton.mp hnew
    exact hthread

/-- What a destructor leaves alone. -/
theorem destruct_frame (state : State) (thread inst : Nat) :
    (state.destruct thread inst).refs = state.refs ∧
      (state.destruct thread inst).owned = state.owned ∧
        (state.destruct thread inst).outs = state.outs ∧
          (state.destruct thread inst).held = state.held := by
  unfold destruct closeTransport
  split <;> exact ⟨rfl, rfl, rfl, rfl⟩

/-- A step that changes the counts as the section's own references. -/
theorem Inv.of_account (hinv : state.Inv) (howned : next.owned = state.owned)
    (houts : next.outs = state.outs)
    (hcount : ∀ other, (next.refs other).strongCount + state.temporaries other =
      (state.refs other).strongCount + next.temporaries other)
    (hfetched : ∀ thread inst, next.held = some (thread, .decStrong inst) → next.held = state.held)
    (hapart : next.Apart) : next.Inv where
  counted other := by
    have hcounted := hinv.counted other
    have hchange := hcount other
    rw [references, holders] at hcounted
    rw [references, holders, howned, houts]
    omega
  fetched thread inst hheld := by
    rw [houts]
    exact hinv.fetched thread inst ((hfetched thread inst hheld).symm.trans hheld)
  apart := hapart

/-- A step that changes neither the counts nor who holds references. -/
theorem Inv.of_frame (hinv : state.Inv)
    (hcount : ∀ inst, (next.refs inst).strongCount = (state.refs inst).strongCount)
    (howned : next.owned = state.owned) (houts : next.outs = state.outs)
    (hheld : next.held = state.held) (hapart : next.Apart) : next.Inv := by
  refine hinv.of_account howned houts (fun other => ?_) (fun _ _ _ => hheld) hapart
  rw [hcount, temporaries, temporaries, hheld]

/-- A strong reference that is not in the account any more is given up. It may be the
last one only if the thread does not have the lock. -/
theorem Inv.of_decStrong (hstep : state.decStrong thread inst = some next)
    (hcounted : ∀ other, (state.refs other).strongCount =
      state.references other + if other = inst then 1 else 0)
    (hfetched : ∀ thread inst, state.held = some (thread, .decStrong inst) →
      state.outs[thread]? = some (some inst))
    (hapart : state.Apart)
    (hlast : state.lockedBy ≠ some thread ∨ 0 < state.references inst) : next.Inv := by
  obtain ⟨⟨deleted, refs⟩, hdec, rfl⟩ := Option.map_eq_some_iff.mp hstep
  obtain ⟨hcount, hdeleted⟩ := RefBase.decStrong_spec hdec
  have hself : (state.refs inst).strongCount = state.references inst + 1 := by
    rw [hcounted, if_pos rfl]
  have hkept : (state.setRefs inst refs).Inv := by
    refine ⟨fun other => ?_, hfetched, hapart⟩
    rw [strongCount_setRefs]
    split
    · rename_i heq
      subst heq
      exact Nat.add_right_cancel (hcount.symm.trans hself)
    · rename_i hne
      rw [hcounted, if_neg hne]
      rfl
  dsimp only
  split
  · rename_i hgone
    have hzero := hdeleted.mp hgone
    have hthread : state.lockedBy ≠ some thread := by
      rcases hlast with hfree | hmore
      · exact hfree
      · omega
    obtain ⟨hrefs, howned, houts, hheld⟩ := destruct_frame (state.setRefs inst refs) thread inst
    refine hkept.of_frame (fun other => ?_) howned houts hheld (hkept.apart.destruct hthread)
    rw [hrefs]
  · exact hkept

/-- What the variables of the loops hold after one of them was assigned to. -/
theorem count_set {outs : List (Option Nat)} {k : Nat} {old : Option Nat}
    (hget : outs[k]? = some old) (new item : Option Nat) :
    (outs.set k new).count item + (if old = item then 1 else 0) =
      outs.count item + if new = item then 1 else 0 := by
  induction outs generalizing k with
  | nil => cases hget
  | cons out outs ih =>
      cases k with
      | zero =>
          obtain rfl := Option.some.inj hget
          simp only [List.set_cons_zero, List.count_cons, beq_iff_eq]
          omega
      | succ k =>
          have hrest := ih hget
          simp only [List.set_cons_succ, List.count_cons]
          omega

theorem temporaries_of_held {rest : Section} (hheld : state.held = some (thread, rest))
    (other : Nat) : state.temporaries other = rest.temporaries other := by
  rw [temporaries, hheld]
  rfl

/-- A statement that takes references to one transport for the section. -/
theorem Inv.of_goOn (hinv : state.Inv) {rest : Section} {refs : RefBase}
    {holder : LimitedMap Int32 Nat}
    (hself : refs.strongCount + state.temporaries inst =
      (state.refs inst).strongCount + rest.temporaries inst)
    (hothers : ∀ other, other ≠ inst → state.temporaries other = rest.temporaries other)
    (hrest : ∀ other, rest ≠ .decStrong other) :
    (({ state with holder := holder }.setRefs inst refs).goOn thread rest).Inv := by
  refine hinv.of_account rfl rfl (fun other => ?_) (fun owner other hnew => ?_) hinv.apart
  · change (({ state with holder := holder }.setRefs inst refs).refs other).strongCount + _ =
      _ + rest.temporaries other
    rw [strongCount_setRefs]
    split
    · rename_i heq
      subst heq
      exact hself
    · rename_i hne
      rw [hothers other hne]
  · exact absurd (congrArg Prod.snd (Option.some.inj hnew)) (hrest other)

/-- A statement that touches no count. -/
theorem Inv.of_held (hinv : state.Inv) {rest : Section} {holder : LimitedMap Int32 Nat}
    (hsame : ∀ other, state.temporaries other = rest.temporaries other)
    (hrest : ∀ other, rest ≠ .decStrong other) :
    ({ state with holder := holder }.goOn thread rest).Inv := by
  refine hinv.of_account rfl rfl (fun other => ?_) (fun owner other hnew => ?_) hinv.apart
  · rw [hsame]
    rfl
  · exact absurd (congrArg Prod.snd (Option.some.inj hnew)) (hrest other)

/-- The variable of the caller gets the transport, and the section keeps one of its two
references. -/
theorem references_replace (hheld : state.held = some (thread, .replace inst)) {old : Option Nat}
    (hout : state.outs[thread]? = some old) (other : Nat) :
    state.references other =
      ({ state with outs := state.outs.set thread (some inst) }.goOn thread
        (.decStrong inst)).references other + if old = some other then 1 else 0 := by
  have hset := count_set hout (some inst) (some other)
  rw [references, temporaries_of_held hheld, references, holders, holders]
  change _ + Section.temporaries other (.replace inst) = state.owned other +
    (state.outs.set thread (some inst)).count (some other) +
      Section.temporaries other (.decStrong inst) + _
  by_cases hsame : other = inst
  · rw [if_pos (congrArg some hsame.symm)] at hset
    simp only [Section.temporaries, if_pos hsame]
    omega
  · rw [if_neg fun heq => hsame (Option.some.inj heq).symm] at hset
    simp only [Section.temporaries, if_neg hsame]
    omega

theorem fetched_replace {old : Option Nat} (hout : state.outs[thread]? = some old)
    (owner other : Nat)
    (hheld : some (thread, Section.decStrong inst) = some (owner, .decStrong other)) :
    (state.outs.set thread (some inst))[owner]? = some (some other) := by
  obtain ⟨rfl, hrest⟩ := Prod.mk.inj (Option.some.inj hheld)
  obtain rfl := Section.decStrong.inj hrest
  exact List.getElem?_set_self (List.getElem?_eq_some_iff.mp hout).1

/-- The account of a section that has one more reference than its rest accounts for. -/
theorem Inv.counted_of_held (hinv : state.Inv) {rest : Section}
    (hheld : state.held = some (thread, rest)) (other : Nat) :
    (state.refs other).strongCount = state.holders other + rest.temporaries other := by
  rw [hinv.counted, references, temporaries_of_held hheld]

/-- `attemptIncStrong` takes a reference for the section, or none. -/
theorem Inv.attemptIncStrong (hinv : state.Inv) {sock : Int32}
    (hheld : state.held = some (thread, .attemptIncStrong sock inst))
    (hstep : state.proceed thread (.attemptIncStrong sock inst) = some next) : next.Inv := by
  have hbefore := temporaries_of_held hheld
  have hspec := RefBase.attemptIncStrong_spec (state.refs inst)
  rw [State.proceed] at hstep
  split at hstep
  · rename_i refs hattempt
    obtain rfl := Option.some.inj hstep
    rw [hattempt] at hspec
    refine hinv.of_goOn ?_ (fun other hne => ?_) (fun other heq => by cases heq)
    · rw [hbefore]
      simpa [Section.temporaries] using hspec
    · rw [hbefore]
      simp [Section.temporaries, hne]
  · rename_i refs hattempt
    obtain rfl := Option.some.inj hstep
    rw [hattempt] at hspec
    refine hinv.of_goOn ?_ (fun other _ => hbefore other) (fun other heq => by cases heq)
    rw [hbefore]
    exact hspec

/-- The transport that was fetched before is given up while somebody else has it. -/
theorem Inv.replace (hinv : state.Inv) (hheld : state.held = some (thread, .replace inst))
    (hkept : state.KeptBy thread (.replace inst))
    (hstep : state.proceed thread (.replace inst) = some next) : next.Inv := by
  rw [State.proceed] at hstep
  split at hstep
  · cases hstep
  · rename_i hout
    obtain rfl := Option.some.inj hstep
    refine ⟨fun other => ?_, fetched_replace hout, hinv.apart⟩
    exact (hinv.counted other).trans (references_replace hheld hout other)
  · rename_i old hout
    have hreferences := references_replace hheld hout
    refine Inv.of_decStrong hstep (fun other => ?_) (fetched_replace hout) hinv.apart (Or.inr ?_)
    · refine (hinv.counted other).trans ((hreferences other).trans ?_)
      simp only [Option.some.injEq, eq_comm]
    · rcases hkept old (by rw [hout]; rfl) with rfl | hmore
      · refine Nat.lt_of_lt_of_le ?_ (Nat.le_add_left _ _)
        exact Nat.lt_of_lt_of_eq Nat.one_pos (if_pos rfl).symm
      · have hold := hreferences old
        rw [if_pos rfl, references] at hold
        omega

/-- The statements of a section. -/
theorem Inv.proceed (hinv : state.Inv) {rest : Section} (hheld : state.held = some (thread, rest))
    (hkept : state.KeptBy thread rest) (hstep : state.proceed thread rest = some next) :
    next.Inv := by
  have hbefore := temporaries_of_held hheld
  cases rest with
  | attemptIncStrong sock inst => exact hinv.attemptIncStrong hheld hstep
  | compare sock inst =>
      obtain rfl := Option.some.inj hstep
      refine hinv.of_held (fun other => ?_) (fun other heq => ?_)
      · rw [hbefore]
        split <;> rfl
      · split at heq <;> cases heq
  | discard sock inst =>
      exact Inv.of_decStrong hstep (hinv.counted_of_held hheld) (fun _ _ hnew => by cases hnew)
        hinv.apart (Or.inr hkept)
  | assign inst =>
      obtain rfl := Option.some.inj hstep
      refine hinv.of_goOn ?_ (fun other hne => ?_) (fun other heq => by cases heq)
      · rw [hbefore]
        simp [Section.temporaries]
      · rw [hbefore]
        simp [Section.temporaries, hne]
  | replace inst => exact hinv.replace hheld hkept hstep
  | decStrong inst =>
      -- The variable of the caller has the transport by now.
      have hout := hinv.fetched thread inst hheld
      have hcount := List.count_pos_iff.mpr (List.mem_of_getElem? hout)
      exact Inv.of_decStrong hstep (hinv.counted_of_held hheld) (fun _ _ hnew => by cases hnew)
        hinv.apart (Or.inr (Nat.lt_of_lt_of_le hcount (Nat.le_add_left _ _)))
  | decWeak inst =>
      obtain rfl := Option.some.inj hstep
      have hnext : (state.goOn thread .unlock).decWeak thread inst =
          (state.setRefs inst (state.refs inst).decWeak.2).goOn thread .unlock := by
        change (if (state.refs inst).decWeak.1 then _ else _) = _
        rw [RefBase.decWeak_kept hkept]
        rfl
      rw [hnext]
      refine hinv.of_goOn ?_ (fun other _ => hbefore other) (fun other heq => by cases heq)
      rw [hbefore]
      rfl
  | unlock =>
      obtain rfl := Option.some.inj hstep
      exact hinv.of_account rfl rfl (fun other => by rw [hbefore]; rfl)
        (fun _ _ hnew => by cases hnew) hinv.apart

theorem temporaries_removeItem (old : Option Nat) (other : Nat) :
    (removeItem old).temporaries other = 0 := by
  cases old <;> rfl

theorem removeItem_ne (old : Option Nat) (other : Nat) : removeItem old ≠ .decStrong other := by
  cases old <;> exact Section.noConfusion

/-- A section that begins. -/
theorem Inv.enter (hinv : state.Inv) (hfree : state.held = none) {call : Call}
    (hstep : state.enter thread call = some next) : next.Inv := by
  have hbefore : ∀ other, state.temporaries other = 0 := by
    intro other
    rw [temporaries, hfree]
    rfl
  cases call with
  | fetch sock =>
      rw [State.enter] at hstep
      split at hstep <;> obtain rfl := Option.some.inj hstep <;>
        exact hinv.of_held hbefore (fun other heq => by cases heq)
  | insert sock inst =>
      obtain ⟨-, hinsert⟩ := Option.ite_none_right_eq_some.mp hstep
      split at hinsert
      · obtain rfl := Option.some.inj hinsert
        refine hinv.of_goOn ?_ (fun other _ => ?_) (removeItem_ne _)
        · rw [hbefore, temporaries_removeItem]
          rfl
        · rw [hbefore, temporaries_removeItem]
      · obtain rfl := Option.some.inj hinsert
        exact hinv.of_held hbefore (fun other heq => by cases heq)
  | remove sock =>
      obtain rfl := Option.some.inj hstep
      refine hinv.of_held (fun other => ?_) (removeItem_ne _)
      rw [hbefore, temporaries_removeItem]

theorem Inv.retain (hinv : state.Inv) (hstep : state.step (.retain inst) = some next) :
    next.Inv := by
  obtain ⟨-, hnext⟩ := Option.ite_none_right_eq_some.mp hstep
  obtain rfl := Option.some.inj hnext
  refine ⟨fun other => ?_, hinv.fetched, hinv.apart⟩
  have hcounted := hinv.counted other
  rw [references, holders] at hcounted
  change ((state.setRefs inst (state.refs inst).incStrong).refs other).strongCount =
    Function.update state.owned inst (state.owned inst + 1) other +
      state.outs.count (some other) + state.temporaries other
  rw [strongCount_setRefs, Function.update_apply]
  split
  · rename_i heq
    subst heq
    rw [RefBase.strongCount_incStrong]
    omega
  · exact hcounted

/-- An owner gives a transport up outside of the holder, so it may be the last. -/
theorem Inv.drop (hinv : state.Inv) (hstep : state.step (.drop thread inst) = some next) :
    next.Inv := by
  obtain ⟨⟨hthread, howned⟩, hdrop⟩ := Option.ite_none_right_eq_some.mp hstep
  refine Inv.of_decStrong hdrop (fun other => ?_) hinv.fetched hinv.apart (Or.inl hthread.1)
  have hcounted := hinv.counted other
  rw [references, holders] at hcounted
  change (state.refs other).strongCount = Function.update state.owned inst
    (state.owned inst - 1) other + state.outs.count (some other) + state.temporaries other + _
  rw [Function.update_apply]
  split
  · rename_i heq
    subst heq
    omega
  · exact hcounted

/-- So does a loop when it ends. -/
theorem Inv.leave (hinv : state.Inv) (hstep : state.step (.leave thread) = some next) :
    next.Inv := by
  obtain ⟨hthread, hleave⟩ := Option.ite_none_right_eq_some.mp hstep
  split at hleave
  · rename_i old hout
    refine Inv.of_decStrong hleave (fun other => ?_) (fun owner other hheld => ?_) hinv.apart
      (Or.inl hthread.1)
    · have hcounted := hinv.counted other
      have hset := count_set hout none (some other)
      rw [references, holders] at hcounted
      change (state.refs other).strongCount = state.owned other +
        (state.outs.set thread none).count (some other) + state.temporaries other + _
      simp only [Option.some.injEq, eq_comm, reduceCtorEq, if_false] at hset ⊢
      omega
    · have hne : thread ≠ owner := by
        rintro rfl
        exact hthread.1 (congrArg (Option.map Prod.fst) hheld)
      exact (List.getElem?_set_ne hne).trans (hinv.fetched owner other hheld)
  · exact Option.some.inj hleave ▸ hinv

/-- One step in which nothing is given up that nobody else has. -/
theorem Inv.step (hinv : state.Inv) {step : Step} (hkept : state.Kept step)
    (hstep : state.step step = some next) : next.Inv := by
  cases step with
  | call thread call =>
      obtain ⟨hthread, hnext⟩ := Option.ite_none_right_eq_some.mp hstep
      obtain rfl := Option.some.inj hnext
      exact hinv.of_frame (fun _ => rfl) rfl rfl rfl (hinv.apart.request hthread.1 call)
  | lock k =>
      rw [State.step] at hstep
      split at hstep
      · rename_i thread call hfree hwaiting
        refine Inv.enter ?_ ?_ hstep
        · exact hinv.of_frame (fun _ => rfl) rfl rfl rfl hinv.apart
        · exact hfree
      · cases hstep
  | advance =>
      rw [State.step] at hstep
      split at hstep
      · rename_i thread rest hheld
        obtain ⟨-, hproceed⟩ := Option.ite_none_left_eq_some.mp hstep
        exact hinv.proceed hheld (hkept _ hheld) hproceed
      · cases hstep
  | retain inst => exact hinv.retain hstep
  | drop thread inst => exact hinv.drop hstep
  | leave thread => exact hinv.leave hstep
  | setSock inst sock =>
      obtain ⟨-, hnext⟩ := Option.ite_none_right_eq_some.mp hstep
      obtain rfl := Option.some.inj hnext
      exact hinv.of_frame (fun _ => rfl) rfl rfl rfl hinv.apart

end State

theorem init_inv (loops : Nat) : (init loops).Inv where
  counted inst := by
    have hnone : (List.replicate loops (none : Option Nat)).count (some inst) = 0 :=
      List.count_eq_zero.mpr fun hmem => by cases List.eq_of_mem_replicate hmem
    rw [State.references, State.holders]
    change 0 = 0 + (List.replicate loops none).count (some inst) + 0
    rw [hnone]
  fetched _ _ hheld := by cases hheld
  apart := ⟨fun _ hmem => absurd hmem List.not_mem_nil, fun _ hmem => absurd hmem List.not_mem_nil⟩

/-- In a run in which a locked section gives nothing up that nobody else has, no thread
asks for the lock while it has it, and no destructor runs inside a locked section. -/
theorem locked_apart (loops : Nat) (steps : List Step)
    (hkept : Promised State.step State.Kept (init loops) steps) {final : State}
    (hrun : runMachine State.step (init loops) steps = some final) : final.Apart :=
  (runMachine_keeps State.Inv (fun _ _ _ hinv hstep hnext => hinv.step hstep hnext)
    (init_inv loops) hkept hrun).apart

/-- Thread 1 owns transports 0 and 1 and puts them into the holder; thread 0 fetches
them one after the other, and the owner gives up the first one only then. -/
theorem locked_apart_passing_on : ∃ final,
    runMachine State.step (init 1) [.retain 0, .setSock 0 5, .call 1 (.insert 5 0), .lock 0,
        .advance, .retain 1, .setSock 1 6, .call 1 (.insert 6 1), .lock 0, .advance,
        .call 0 (.fetch 5), .lock 0, .advance, .advance, .advance, .advance, .advance, .advance,
        .call 0 (.fetch 6), .lock 0, .advance, .advance, .advance, .advance, .advance, .advance,
        .drop 1 0, .lock 0, .advance, .advance] = some final ∧
      final.Apart ∧ final.destroyed = [⟨0, 1, none⟩] := by
  have hrun : (runMachine State.step (init 1)
    [.retain 0, .setSock 0 5, .call 1 (.insert 5 0), .lock 0,
      .advance, .retain 1, .setSock 1 6, .call 1 (.insert 6 1), .lock 0, .advance,
      .call 0 (.fetch 5), .lock 0, .advance, .advance, .advance, .advance, .advance, .advance,
      .call 0 (.fetch 6), .lock 0, .advance, .advance, .advance, .advance, .advance, .advance,
      .drop 1 0, .lock 0, .advance, .advance]).map State.destroyed = some [⟨0, 1, none⟩] := by
    decide +kernel
  obtain ⟨final, hfinal, hdestroyed⟩ := Option.map_eq_some_iff.mp hrun
  exact ⟨final, hfinal, locked_apart 1 _ (by decide +kernel) hfinal, hdestroyed⟩

/-- The owner gives transport 0 up while the variable of thread 0 refers to it: when
thread 0 fetches transport 1, it asks for the lock that it has, to remove transport 0. -/
theorem last_reference_in_fetch :
    ¬ ∀ (loops : Nat) (steps : List Step) (final : State),
      runMachine State.step (init loops) steps = some final → final.Apart := by
  intro hclaim
  have hrun : (runMachine State.step (init 1)
    [.retain 0, .setSock 0 5, .call 1 (.insert 5 0), .lock 0,
      .advance, .retain 1, .setSock 1 6, .call 1 (.insert 6 1), .lock 0, .advance,
      .call 0 (.fetch 5), .lock 0, .advance, .advance, .advance, .advance, .advance, .advance,
      .drop 1 0, .call 0 (.fetch 6), .lock 0, .advance, .advance, .advance, .advance]).map
        (fun final => final.requests.getLast?) = some (some ⟨0, .remove 5, some 0⟩) := by
    decide +kernel
  obtain ⟨final, hfinal, hlast⟩ := Option.map_eq_some_iff.mp hrun
  exact (hclaim 1 _ final hfinal).1 _ (List.mem_of_getLast? hlast) rfl

/-! ## The calls in one piece -/

/-- Whether a fetch that is not interrupted hands out a transport. -/
def State.usable (state : State) (sock : Int32) (inst : Nat) : Bool :=
  (state.refs inst).attemptIncStrong.1 && state.sock inst = sock

/-- The holder after a call, as a partial map. -/
def Call.onMap (state : State) : Call → LimitedMap Int32 Nat
  | .fetch sock => (Holder.mapFetch state.holder sock (state.usable sock)).2.2
  | .insert sock inst => (Holder.mapInsert state.holder sock inst).2.2
  | .remove sock => (Holder.mapRemove state.holder sock).2.2

/-- The holder at the end of a section that is not interrupted. -/
def Section.outcome (state : State) : Section → LimitedMap Int32 Nat
  | .attemptIncStrong sock inst =>
      if state.usable sock inst then state.holder else state.holder.erase sock
  | .compare sock inst =>
      if state.sock inst = sock then state.holder else state.holder.erase sock
  | .discard sock _ => state.holder.erase sock
  | .assign _ | .replace _ | .decStrong _ | .decWeak _ | .unlock => state.holder

namespace State

variable {state next : State} {thread inst : Nat}

def outcome (state : State) : LimitedMap Int32 Nat :=
  match state.held with
  | some (_, rest) => rest.outcome state
  | none => state.holder

theorem destruct_holder (state : State) (thread inst : Nat) :
    (state.destruct thread inst).holder = state.holder := by
  unfold destruct closeTransport
  split <;> rfl

/-- Giving a strong reference up changes neither the holder nor the section. -/
theorem decStrong_holder (hstep : state.decStrong thread inst = some next) :
    next.holder = state.holder ∧ next.held = state.held := by
  obtain ⟨⟨deleted, refs⟩, -, rfl⟩ := Option.map_eq_some_iff.mp hstep
  dsimp only
  split
  · exact ⟨destruct_holder _ _ _, (destruct_frame _ _ _).2.2.2⟩
  · exact ⟨rfl, rfl⟩

theorem decWeak_holder (state : State) (thread inst : Nat) :
    (state.decWeak thread inst).holder = state.holder ∧
      (state.decWeak thread inst).held = state.held := by
  unfold decWeak
  dsimp only
  split
  · exact ⟨destruct_holder _ _ _, (destruct_frame _ _ _).2.2.2⟩
  · exact ⟨rfl, rfl⟩

/-- Nothing but the references and the section is different once a reference has been
given up at the end of a statement. -/
theorem outcome_of_decStrong {other : Nat} {rest : Section}
    (hstep : state.decStrong other inst = some next) (hheld : state.held = some (thread, rest))
    (hrest : ∀ state, rest.outcome state = state.holder) : next.outcome = state.holder := by
  obtain ⟨hholder, hsame⟩ := decStrong_holder hstep
  rw [outcome, hsame, hheld]
  exact (hrest next).trans hholder

/-- A statement of a section does not change what the section comes to. -/
theorem outcome_proceed {rest : Section} (hheld : state.held = some (thread, rest))
    (hstep : state.proceed thread rest = some next) : next.outcome = state.outcome := by
  have hbefore : state.outcome = rest.outcome state := by rw [outcome, hheld]
  rw [hbefore]
  cases rest with
  | attemptIncStrong sock inst =>
      rw [Section.outcome, usable]
      rw [State.proceed] at hstep
      split at hstep
      · rename_i refs hattempt
        obtain rfl := Option.some.inj hstep
        rw [hattempt]
        simp only [Bool.true_and, decide_eq_true_eq]
        rfl
      · rename_i refs hattempt
        obtain rfl := Option.some.inj hstep
        rw [hattempt]
        rfl
  | compare sock inst =>
      obtain rfl := Option.some.inj hstep
      change Section.outcome _ (ite _ _ _) = ite _ _ _
      by_cases hsame : state.sock inst = sock
      · rw [if_neg (not_not_intro hsame), if_pos hsame]
        rfl
      · rw [if_pos hsame, if_neg hsame]
        rfl
  | discard sock inst => exact outcome_of_decStrong hstep rfl (fun _ => rfl)
  | assign inst =>
      obtain rfl := Option.some.inj hstep
      rfl
  | replace inst =>
      rw [State.proceed] at hstep
      split at hstep
      · cases hstep
      · obtain rfl := Option.some.inj hstep
        rfl
      · exact (outcome_of_decStrong hstep rfl fun _ => rfl).trans rfl
  | decStrong inst => exact (outcome_of_decStrong hstep rfl fun _ => rfl).trans rfl
  | decWeak inst =>
      obtain rfl := Option.some.inj hstep
      obtain ⟨hholder, hsame⟩ := decWeak_holder (state.goOn thread .unlock) thread inst
      rw [outcome, hsame]
      exact hholder
  | unlock =>
      obtain rfl := Option.some.inj hstep
      rfl

theorem outcome_removeItem (state : State) (thread : Nat) (old : Option Nat) :
    (state.goOn thread (removeItem old)).outcome = state.holder := by
  cases old <;> rfl

/-- What a section comes to when it begins. -/
theorem outcome_enter {call : Call} (hstep : state.enter thread call = some next) :
    next.outcome = call.onMap state := by
  cases call with
  | fetch sock =>
      rw [State.enter] at hstep
      rw [Call.onMap, Holder.mapFetch]
      split at hstep
      · rename_i inst hlookup
        obtain rfl := Option.some.inj hstep
        rw [hlookup]
        dsimp only
        change (if state.usable sock inst then _ else _) = _
        split <;> rfl
      · rename_i hlookup
        obtain rfl := Option.some.inj hstep
        rw [hlookup]
        rfl
  | insert sock inst =>
      obtain ⟨-, hinsert⟩ := Option.ite_none_right_eq_some.mp hstep
      rw [Call.onMap]
      split at hinsert
      · rename_i old holder hmap
        obtain rfl := Option.some.inj hinsert
        rw [hmap]
        exact outcome_removeItem _ _ old
      · rename_i hmap
        obtain rfl := Option.some.inj hinsert
        rw [Holder.mapInsert]
        split
        · rfl
        · rename_i hfree
          exact absurd (if_neg hfree) (hmap _ _)
  | remove sock =>
      obtain rfl := Option.some.inj hstep
      exact outcome_removeItem _ _ _

end State

/-- A call that no other thread interrupts changes the holder as the partial map. -/
theorem section_is_map {state final : State} {k n thread : Nat} {call : Call}
    (hwaiting : state.waiting[k]? = some (thread, call))
    (hrun : runMachine State.step state (.lock k :: List.replicate n .advance) = some final)
    (hend : final.held = none) : final.holder = call.onMap state := by
  rw [runMachine_cons, Option.bind_eq_some_iff] at hrun
  obtain ⟨next, hnext, hrest⟩ := hrun
  have hbegin : next.outcome = call.onMap state := by
    rw [State.step, hwaiting] at hnext
    split at hnext
    · rename_i _ _ thread' call' _ heq
      obtain ⟨rfl, rfl⟩ := Prod.mk.inj (Option.some.inj heq)
      refine (State.outcome_enter hnext).trans ?_
      cases call <;> rfl
    · cases hnext
  have hkeeps : final.outcome = call.onMap state := by
    refine runMachine_keeps (fun state' : State => state'.outcome = call.onMap state)
      (fun state' step next' hbefore hadvance hstep => ?_) hbegin
      (Promised.always fun step hmem _ => List.eq_of_mem_replicate hmem) hrest
    rw [show step = .advance from hadvance, State.step] at hstep
    split at hstep
    · rename_i owner rest hheld
      obtain ⟨-, hproceed⟩ := Option.ite_none_left_eq_some.mp hstep
      exact (State.outcome_proceed hheld hproceed).trans hbefore
    · cases hstep
  rwa [State.outcome, hend] at hkeeps

end McuProxy.Net.HolderLock
