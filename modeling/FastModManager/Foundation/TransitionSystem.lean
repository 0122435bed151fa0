import Mathlib.Data.List.Basic

universe u v w x

namespace FastModManager.Foundation

variable {σ : Type u} {α : Type v} {ο : Type w}

namespace TransitionSystem

variable (step : σ → α → Option (ο × σ)) (admits : σ → α → Prop)

/-- The runs whose steps are all admitted, with the output of each step. -/
inductive Run (start : σ) : List ο → σ → Prop
  | nil : Run start [] start
  | snoc {outputs : List ο} {state next : σ} {action : α} {output : ο} :
    Run start outputs state → admits state action → step state action = some (output, next) →
      Run start (outputs ++ [output]) next

def play [∀ state action, Decidable (admits state action)] : σ → List α → Option (List ο × σ)
  | state, [] => some ([], state)
  | state, action :: actions =>
    if admits state action then do
      let (output, next) ← step state action
      let (outputs, last) ← play next actions
      return (output :: outputs, last)
    else none

variable {step admits} {start state : σ} {outputs : List ο}

namespace Run

theorem invariant (run : Run step admits start outputs state) (holds : σ → Prop)
    (initially : holds start)
    (preserved : ∀ state action output next, holds state → admits state action →
      step state action = some (output, next) → holds next) : holds state := by
  induction run with
  | nil => exact initially
  | snoc _ admitted taken ih => exact preserved _ _ _ _ ih admitted taken

theorem traced (run : Run step admits start outputs state) (holds : List ο → σ → Prop)
    (initially : holds [] start)
    (preserved : ∀ outputs state action output next, holds outputs state → admits state action →
      step state action = some (output, next) → holds (outputs ++ [output]) next) :
    holds outputs state := by
  induction run with
  | nil => exact initially
  | snoc _ admitted taken ih => exact preserved _ _ _ _ _ ih admitted taken

theorem mono {admits' : σ → α → Prop} (weaker : ∀ state action, admits state action →
    admits' state action) (run : Run step admits start outputs state) :
    Run step admits' start outputs state := by
  induction run with
  | nil => exact .nil
  | snoc _ admitted taken ih => exact ih.snoc (weaker _ _ admitted) taken

theorem single {action : α} {output : ο} (admitted : admits start action)
    (taken : step start action = some (output, state)) : Run step admits start [output] state :=
  nil.snoc admitted taken

theorem trans {outputs' : List ο} {last : σ} (run : Run step admits start outputs state)
    (further : Run step admits state outputs' last) :
    Run step admits start (outputs ++ outputs') last := by
  induction further with
  | nil => rwa [List.append_nil]
  | snoc _ admitted taken ih => rw [← List.append_assoc]; exact ih.snoc admitted taken

end Run

section History

variable {η : Type x} {record : σ → α → σ → η → η}

def withHistory (step : σ → α → Option (ο × σ)) (record : σ → α → σ → η → η)
    (state : σ × η) (action : α) : Option (ο × (σ × η)) :=
  (step state.1 action).map fun (output, next) =>
    (output, next, record state.1 action next state.2)

theorem withHistory_eq_some_iff {history history' : η} {action : α} {output : ο} {next : σ} :
    withHistory step record (state, history) action = some (output, next, history') ↔
      step state action = some (output, next) ∧ record state action next history = history' := by
  simp only [withHistory, Option.map_eq_some_iff, Prod.mk.injEq, Prod.exists]
  constructor
  · rintro ⟨_, _, taken, rfl, rfl, same⟩
    exact ⟨taken, same⟩
  · rintro ⟨taken, same⟩
    exact ⟨output, next, taken, rfl, rfl, same⟩

theorem exists_history_iff (history : η) : Run step admits start outputs state ↔
    ∃ history', Run (withHistory step record) (fun state => admits state.1) (start, history) outputs
      (state, history') := by
  constructor
  · intro run
    induction run with
    | nil => exact ⟨history, .nil⟩
    | snoc _ admitted taken ih =>
      obtain ⟨_, recorded⟩ := ih
      exact ⟨_, recorded.snoc admitted (withHistory_eq_some_iff.mpr ⟨taken, rfl⟩)⟩
  · rintro ⟨history', recorded⟩
    refine recorded.traced (fun outputs state => Run step admits start outputs state.1) .nil ?_
    rintro outputs ⟨before, _⟩ action output ⟨next, _⟩ run admitted taken
    exact run.snoc admitted (withHistory_eq_some_iff.mp taken).1

end History

section Reaches

variable (step admits) in
def Reaches (goal : σ → Prop) (start : σ) : Prop :=
  ∃ outputs state, Run step admits start outputs state ∧ goal state

variable {goal : σ → Prop}

theorem Reaches.here (holds : goal start) : Reaches step admits goal start :=
  ⟨[], start, .nil, holds⟩

theorem Reaches.of_step {action : α} {output : ο} {next : σ}
    (taken : step start action = some (output, next)) (admitted : admits start action)
    (further : Reaches step admits goal next) : Reaches step admits goal start := by
  obtain ⟨outputs, last, run, holds⟩ := further
  exact ⟨output :: outputs, last, (Run.single admitted taken).trans run, holds⟩

theorem not_reaches_iff : ¬ Reaches step admits goal start ↔
    ∀ outputs state, Run step admits start outputs state → ¬ goal state := by
  simp only [Reaches, not_exists, not_and]

end Reaches

theorem run_of_play [∀ state action, Decidable (admits state action)] {actions : List α} :
    ∀ {start : σ} {outputs : List ο}, play step admits start actions = some (outputs, state) →
      Run step admits start outputs state := by
  induction actions with
  | nil =>
    intro start outputs played
    simp only [play, Option.some.injEq, Prod.mk.injEq] at played
    obtain ⟨rfl, rfl⟩ := played
    exact .nil
  | cons action actions ih =>
    intro start outputs played
    by_cases admitted : admits start action
    · simp only [play, admitted, if_true, Option.bind_eq_bind, Option.bind_eq_some_iff] at played
      obtain ⟨⟨output, next⟩, taken, ⟨rest, last⟩, playedRest, same⟩ := played
      cases same
      exact (Run.single admitted taken).trans (ih playedRest)
    · simp [play, admitted] at played

end TransitionSystem

end FastModManager.Foundation
