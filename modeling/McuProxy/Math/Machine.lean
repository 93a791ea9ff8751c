/-
# Runs of partial machines

A machine reads one input at a time and its step may be undefined. A caller
promises something about each input in the state in which it is given, and the
promise is part of a run: `Promised` says that every input of the sequence is
promised in the state the earlier inputs led to.
-/

import Mathlib.Logic.Basic

namespace McuProxy.Math

universe u v

variable {σ : Type u} {ι : Type v}

/-- Feed a sequence of inputs to a machine; `none` as soon as one step is
undefined. -/
def runMachine (step : σ → ι → Option σ) : σ → List ι → Option σ
  | state, [] => some state
  | state, input :: inputs => (step state input).bind fun next => runMachine step next inputs

@[simp]
theorem runMachine_nil (step : σ → ι → Option σ) (state : σ) :
    runMachine step state [] = some state := rfl

theorem runMachine_cons (step : σ → ι → Option σ) (state : σ) (input : ι) (inputs : List ι) :
    runMachine step state (input :: inputs) =
      (step state input).bind fun next => runMachine step next inputs := rfl

theorem runMachine_append (step : σ → ι → Option σ) (state : σ) (first second : List ι) :
    runMachine step state (first ++ second) =
      (runMachine step state first).bind fun mid => runMachine step mid second := by
  induction first generalizing state with
  | nil => rfl
  | cons input first ih =>
      rw [List.cons_append, runMachine_cons, runMachine_cons, Option.bind_assoc]
      exact congrArg _ (funext ih)

/-- The rule for a run that is known to be defined: what every defined step
keeps, the run keeps. -/
theorem runMachine_preserves {step : σ → ι → Option σ} (Inv : σ → Prop)
    (hstep : ∀ state input next, Inv state → step state input = some next → Inv next)
    {start final : σ} (hstart : Inv start) {inputs : List ι}
    (hrun : runMachine step start inputs = some final) : Inv final := by
  induction inputs generalizing start with
  | nil =>
      obtain rfl := Option.some.inj hrun
      exact hstart
  | cons input inputs ih =>
      rw [runMachine_cons, Option.bind_eq_some_iff] at hrun
      obtain ⟨next, hnext, hrest⟩ := hrun
      exact ih (hstep start input next hstart hnext) hrest

/-- Every input keeps the caller's promise in the state in which it arrives. -/
def Promised (step : σ → ι → Option σ) (promise : σ → ι → Prop) : σ → List ι → Prop
  | _, [] => True
  | state, input :: inputs =>
      promise state input ∧
        ∀ next, step state input = some next → Promised step promise next inputs

/-- Whether a promise is kept can be found out by running the machine. -/
instance Promised.decidable {step : σ → ι → Option σ} {promise : σ → ι → Prop}
    [∀ state input, Decidable (promise state input)] :
    ∀ state inputs, Decidable (Promised step promise state inputs)
  | _, [] => isTrue trivial
  | state, input :: inputs =>
      match hstep : step state input with
      | none => decidable_of_iff (promise state input) (by simp [Promised, hstep])
      | some next =>
          have : Decidable (Promised step promise next inputs) := Promised.decidable next inputs
          decidable_of_iff (promise state input ∧ Promised step promise next inputs)
            (by simp [Promised, hstep])

theorem Promised.cons {step : σ → ι → Option σ} {promise : σ → ι → Prop} {start next : σ}
    {input : ι} {inputs : List ι} (hinput : promise start input)
    (hstep : step start input = some next) (hrest : Promised step promise next inputs) :
    Promised step promise start (input :: inputs) := by
  refine ⟨hinput, fun other hother => ?_⟩
  obtain rfl := Option.some.inj (hstep.symm.trans hother)
  exact hrest

/-- A promise that the inputs keep in any state. -/
theorem Promised.always {step : σ → ι → Option σ} {promise : σ → ι → Prop} {start : σ}
    {inputs : List ι} (hinputs : ∀ input ∈ inputs, ∀ state, promise state input) :
    Promised step promise start inputs := by
  induction inputs generalizing start with
  | nil => trivial
  | cons input inputs ih =>
      obtain ⟨hinput, hrest⟩ := List.forall_mem_cons.mp hinputs
      exact ⟨hinput start, fun next _ => ih hrest⟩

theorem Promised.and {step : σ → ι → Option σ} {first second : σ → ι → Prop} {start : σ}
    {inputs : List ι} (hfirst : Promised step first start inputs)
    (hsecond : Promised step second start inputs) :
    Promised step (fun state input => first state input ∧ second state input) start inputs := by
  induction inputs generalizing start with
  | nil => trivial
  | cons input inputs ih =>
      exact ⟨⟨hfirst.1, hsecond.1⟩,
        fun next hstep => ih (hfirst.2 next hstep) (hsecond.2 next hstep)⟩

/-- The promise about an input in the middle of a run. -/
theorem Promised.middle {step : σ → ι → Option σ} {promise : σ → ι → Prop} {start mid : σ}
    {before after : List ι} {input : ι}
    (hpromised : Promised step promise start (before ++ input :: after))
    (hrun : runMachine step start before = some mid) : promise mid input := by
  induction before generalizing start with
  | nil =>
      obtain rfl := Option.some.inj hrun
      exact hpromised.1
  | cons first before ih =>
      rw [runMachine_cons, Option.bind_eq_some_iff] at hrun
      obtain ⟨next, hnext, hrest⟩ := hrun
      exact ih (hpromised.2 next hnext) hrest

/-- The run rule: a step that is defined and keeps the invariant on every
promised input gives runs that are defined and end in the invariant. -/
theorem runMachine_invariant {step : σ → ι → Option σ} {promise : σ → ι → Prop}
    (Inv : σ → Prop)
    (hstep : ∀ state input, Inv state → promise state input →
      ∃ next, step state input = some next ∧ Inv next)
    {start : σ} (hstart : Inv start) {inputs : List ι}
    (hpromised : Promised step promise start inputs) :
    ∃ final, runMachine step start inputs = some final ∧ Inv final := by
  induction inputs generalizing start with
  | nil => exact ⟨start, rfl, hstart⟩
  | cons input inputs ih =>
      obtain ⟨hinput, hrest⟩ := hpromised
      obtain ⟨next, hnext, hinv⟩ := hstep start input hstart hinput
      obtain ⟨final, hfinal, hinv'⟩ := ih hinv (hrest next hnext)
      refine ⟨final, ?_, hinv'⟩
      rw [runMachine_cons, hnext, Option.bind_some, hfinal]

/-- The rule for a run that is known to be defined and in which every promise is
kept. -/
theorem runMachine_keeps {step : σ → ι → Option σ} {promise : σ → ι → Prop} (Inv : σ → Prop)
    (hstep : ∀ state input next, Inv state → promise state input → step state input = some next →
      Inv next)
    {start final : σ} (hstart : Inv start) {inputs : List ι}
    (hpromised : Promised step promise start inputs)
    (hrun : runMachine step start inputs = some final) : Inv final := by
  induction inputs generalizing start with
  | nil =>
      obtain rfl := Option.some.inj hrun
      exact hstart
  | cons input inputs ih =>
      rw [runMachine_cons, Option.bind_eq_some_iff] at hrun
      obtain ⟨next, hnext, hrest⟩ := hrun
      exact ih (hstep start input next hstart hpromised.1 hnext) (hpromised.2 next hnext) hrest

/-- A promise that follows from another wherever an invariant holds is kept by
every run that keeps the other one. -/
theorem Promised.imp_invariant {step : σ → ι → Option σ} {first second : σ → ι → Prop}
    (Inv : σ → Prop)
    (himp : ∀ state input, Inv state → first state input → second state input)
    (hkeep : ∀ state input next, Inv state → first state input → step state input = some next →
      Inv next)
    {start : σ} (hstart : Inv start) {inputs : List ι} (hfirst : Promised step first start inputs) :
    Promised step second start inputs := by
  induction inputs generalizing start with
  | nil => trivial
  | cons input inputs ih =>
      obtain ⟨hinput, hrest⟩ := hfirst
      exact ⟨himp start input hstart hinput, fun next hstep =>
        ih (hkeep start input next hstart hinput hstep) (hrest next hstep)⟩

/-- Two promises that agree wherever an invariant holds are kept by the same
runs. The invariant may rest on the second promise being kept. -/
theorem Promised.congr_invariant {step : σ → ι → Option σ} {admissible first second : σ → ι → Prop}
    (Inv : σ → Prop)
    (hagree : ∀ state input, Inv state → admissible state input →
      (first state input ↔ second state input))
    (hkeep : ∀ state input next, Inv state → admissible state input → second state input →
      step state input = some next → Inv next)
    {start : σ} (hstart : Inv start) {inputs : List ι}
    (hadmissible : Promised step admissible start inputs) :
    Promised step first start inputs ↔ Promised step second start inputs := by
  induction inputs generalizing start with
  | nil => exact Iff.rfl
  | cons input inputs ih =>
      obtain ⟨hinput, hrest⟩ := hadmissible
      have hhere := hagree start input hstart hinput
      constructor
      · rintro ⟨hfirst, hnext⟩
        have hsecond := hhere.mp hfirst
        exact ⟨hsecond, fun next hstep =>
          (ih (hkeep start input next hstart hinput hsecond hstep) (hrest next hstep)).mp
            (hnext next hstep)⟩
      · rintro ⟨hsecond, hnext⟩
        exact ⟨hhere.mpr hsecond, fun next hstep =>
          (ih (hkeep start input next hstart hinput hsecond hstep) (hrest next hstep)).mpr
            (hnext next hstep)⟩

/-- The same for a machine that takes every input. -/
theorem Promised.congr_unconditional {step : σ → ι → Option σ} {first second : σ → ι → Prop}
    (Inv : σ → Prop)
    (hagree : ∀ state input, Inv state → (first state input ↔ second state input))
    (hkeep : ∀ state input next, Inv state → second state input → step state input = some next →
      Inv next)
    {start : σ} (hstart : Inv start) (inputs : List ι) :
    Promised step first start inputs ↔ Promised step second start inputs :=
  Promised.congr_invariant Inv (fun state input hinv (_ : True) => hagree state input hinv)
    (fun state input next hinv _ => hkeep state input next hinv) hstart
    (Promised.always fun _ _ _ => trivial)

end McuProxy.Math
