import Mathlib.Data.List.Basic

universe u v w x

namespace FastModManager.Foundation

variable {σ : Type u} {τ : Type v} {ι : Type w} {ο : Type x}

namespace Machine

def run (step : σ → ι → ο × σ) : σ → List ι → List ο × σ
  | state, [] => ([], state)
  | state, input :: inputs =>
    let (output, next) := step state input
    let (outputs, last) := run step next inputs
    (output :: outputs, last)

theorem run_of_simulation (step : σ → ι → ο × σ) (step' : τ → ι → ο × τ) (related : σ → τ → Prop)
    (allowed : ι → Prop)
    (simulates : ∀ state state' input, related state state' → allowed input →
      (step state input).1 = (step' state' input).1 ∧
        related (step state input).2 (step' state' input).2)
    {inputs : List ι} (inputsAllowed : ∀ input ∈ inputs, allowed input) :
    ∀ (state : σ) (state' : τ), related state state' →
      (run step state inputs).1 = (run step' state' inputs).1 ∧
        related (run step state inputs).2 (run step' state' inputs).2 := by
  induction inputs with
  | nil => intro state state' start; exact ⟨rfl, start⟩
  | cons input inputs ih =>
    intro state state' start
    obtain ⟨answer, next⟩ :=
      simulates state state' input start (inputsAllowed input List.mem_cons_self)
    obtain ⟨answers, last⟩ :=
      ih (fun input member => inputsAllowed input (List.mem_cons_of_mem _ member)) _ _ next
    exact ⟨by simp only [run, answer, answers], last⟩

theorem run_of_invariant {step : σ → ι → ο × σ} (invariant : σ → Prop) {inputs : List ι}
    (keeps : ∀ state, ∀ input ∈ inputs, invariant state → invariant (step state input).2) :
    ∀ {state : σ}, invariant state → invariant (run step state inputs).2 := by
  induction inputs with
  | nil => intro state holds; exact holds
  | cons input inputs ih =>
    intro state holds
    have next := keeps state input List.mem_cons_self holds
    exact ih (fun state input member => keeps state input (List.mem_cons_of_mem _ member)) next

theorem run_of_fixed {step : σ → ι → ο × σ} {state : σ} {inputs : List ι}
    (fixed : ∀ input ∈ inputs, (step state input).2 = state) :
    (run step state inputs).2 = state := by
  apply run_of_invariant (· = state) _ rfl
  rintro _ input member rfl
  exact fixed input member

theorem run_of_established {step : σ → ι → ο × σ} (holds : ο → σ → Prop) (spoils : ι → ο → Prop)
    (establishes : ∀ state input, holds (step state input).1 (step state input).2)
    (keeps : ∀ state input output, holds output state → ¬ spoils input output →
      holds output (step state input).2)
    {inputs : List ι} {output : ο} :
    ∀ {state : σ} {index : Nat}, (run step state inputs).1[index]? = some output →
      (∀ later input, index < later → inputs[later]? = some input → ¬ spoils input output) →
      holds output (run step state inputs).2 := by
  induction inputs with
  | nil =>
    intro state index answered _
    cases answered
  | cons input inputs ih =>
    intro state index answered unspoilt
    cases index with
    | zero =>
      cases answered
      refine @run_of_invariant _ _ _ step (holds (step state input).1) inputs ?_ _
        (establishes state input)
      intro state' later member before
      obtain ⟨place, found⟩ := List.mem_iff_getElem?.mp member
      exact keeps state' later _ before (unspoilt (place + 1) later (Nat.succ_pos _) found)
    | succ index =>
      refine @ih (step state input).2 index answered ?_
      intro later input' bound found
      exact unspoilt (later + 1) input' (Nat.succ_lt_succ bound) found

section Answered

variable {κ : Type w} (step : σ → ι → ο × σ) (skipped : ο → Bool)

/-- The answers of the run that are not skipped, each with its input. -/
def answered (state : σ) (inputs : List ι) : List (ο × ι) :=
  ((run step state inputs).1.zip inputs).filter fun answer => !skipped answer.1

theorem answered_cons (state : σ) (input : ι) (inputs : List ι) :
    answered step skipped state (input :: inputs) =
      if skipped (step state input).1 then answered step skipped (step state input).2 inputs
      else ((step state input).1, input) :: answered step skipped (step state input).2 inputs := by
  simp only [answered, run, List.zip_cons_cons, List.filter_cons]
  cases skipped (step state input).1 <;> rfl

variable {step skipped}

/-- Where the skipped answers leave related states related and the others agree with the second
machine, that machine gives the answers that are not skipped when it runs on their inputs alone. -/
theorem answered_of_simulation (step' : τ → κ → ο × τ) (translate : ι → κ) (related : σ → τ → Prop)
    {inputs : List ι}
    (simulates : ∀ state state', ∀ input ∈ inputs, related state state' →
      skipped (step state input).1 = true ∧ related (step state input).2 state' ∨
        skipped (step state input).1 = false ∧
          (step state input).1 = (step' state' (translate input)).1 ∧
          related (step state input).2 (step' state' (translate input)).2) :
    ∀ {state : σ} {state' : τ}, related state state' →
      (answered step skipped state inputs).map Prod.fst =
          (run step' state' ((answered step skipped state inputs).map (translate ·.2))).1 ∧
        related (run step state inputs).2
          (run step' state' ((answered step skipped state inputs).map (translate ·.2))).2 := by
  induction inputs with
  | nil => intro state state' start; exact ⟨rfl, start⟩
  | cons input inputs ih =>
    intro state state' start
    have later := @ih fun state state' input member =>
      simulates state state' input (List.mem_cons_of_mem _ member)
    rw [answered_cons]
    rcases simulates state state' input List.mem_cons_self start with
      ⟨isSkipped, next⟩ | ⟨notSkipped, same, next⟩
    · rw [if_pos isSkipped]
      exact later next
    · rw [if_neg (by simp [notSkipped])]
      obtain ⟨answers, last⟩ := later next
      refine ⟨?_, last⟩
      rw [List.map_cons, List.map_cons, answers, same]
      rfl

end Answered

def Always (step : σ → ι → ο × σ) (good : σ → ι → Prop) : σ → List ι → Prop
  | _, [] => True
  | state, input :: inputs => good state input ∧ Always step good (step state input).2 inputs

theorem always_congr {step : σ → ι → ο × σ} {good good' : σ → ι → Prop} (invariant : σ → Prop)
    (agree : ∀ state input, invariant state → (good state input ↔ good' state input))
    (keeps : ∀ state input, invariant state → good' state input →
      invariant (step state input).2)
    {inputs : List ι} :
    ∀ {state : σ}, invariant state →
      (Always step good state inputs ↔ Always step good' state inputs) := by
  induction inputs with
  | nil => intro state _; exact Iff.rfl
  | cons input inputs ih =>
    intro state holds
    rw [Always, Always, agree state input holds]
    exact and_congr_right fun here => ih (keeps state input holds here)

end Machine

end FastModManager.Foundation
