import Mathlib.Data.List.Basic

universe u v w x

namespace FastModManager.Foundation

variable {Request : Type u} {Answer : Request → Type v} {α β : Type w} {σ : Type x}

abbrev Call (Answer : Request → Type v) := Σ request, Answer request

inductive Program (Answer : Request → Type v) (α : Type w) where
  | done (value : α)
  | call (request : Request) (next : Answer request → Program Answer α)

structure Execution (Answer : Request → Type v) (σ : Type x) (α : Type w) where
  value : α
  calls : List (Call Answer)
  state : σ

namespace Program

def bind : Program Answer α → (α → Program Answer β) → Program Answer β
  | .done value, after => after value
  | .call request next, after => .call request fun answer => (next answer).bind after

instance : Monad (Program Answer) where
  pure := .done
  bind := bind

section Execute

variable (handle : σ → (request : Request) → Answer request × σ)

def execute : Program Answer α → σ → Execution Answer σ α
  | .done value, state => ⟨value, [], state⟩
  | .call request next, state =>
    let (answer, state) := handle state request
    let rest := (next answer).execute state
    { rest with calls := ⟨request, answer⟩ :: rest.calls }

@[simp] theorem execute_pure (value : α) (state : σ) :
    (pure value : Program Answer α).execute handle state = ⟨value, [], state⟩ := rfl

@[simp] theorem execute_call (request : Request) (next : Answer request → Program Answer α)
    (state : σ) :
    (call request next).execute handle state =
      let rest := (next (handle state request).1).execute handle (handle state request).2
      { rest with calls := ⟨request, (handle state request).1⟩ :: rest.calls } := rfl

theorem execute_bind (program : Program Answer α) (after : α → Program Answer β) (state : σ) :
    (program >>= after).execute handle state =
      let first := program.execute handle state
      let second := (after first.value).execute handle first.state
      { second with calls := first.calls ++ second.calls } := by
  change (program.bind after).execute handle state = _
  induction program generalizing state with
  | done value => rfl
  | call request next ih =>
    simp only [bind, execute_call, ih, List.cons_append]

end Execute

section History

variable {handle : σ → (request : Request) → Answer request × σ}
  {specified : List (Call Answer) → (request : Request) → Answer request}

def Answered (specified : List (Call Answer) → (request : Request) → Answer request)
    (earlier calls : List (Call Answer)) : Prop :=
  ∀ before call after, calls = before ++ call :: after →
    call.2 = specified (earlier ++ before) call.1

theorem Answered.nil (earlier : List (Call Answer)) : Answered specified earlier [] := by
  intro before call after split
  cases before <;> cases split

theorem Answered.cons {earlier calls : List (Call Answer)} {first : Call Answer}
    (here : first.2 = specified earlier first.1)
    (later : Answered specified (earlier ++ [first]) calls) :
    Answered specified earlier (first :: calls) := by
  intro before call after split
  cases before with
  | nil =>
    cases split
    rw [List.append_nil]
    exact here
  | cons _ before =>
    cases split
    rw [List.append_cons]
    exact later before call after rfl

theorem answered_of_record (records : List (Call Answer) → σ → Prop)
    (answers : ∀ earlier state request, records earlier state →
      (handle state request).1 = specified earlier request ∧
        records (earlier ++ [⟨request, (handle state request).1⟩]) (handle state request).2)
    (program : Program Answer α) :
    ∀ {earlier : List (Call Answer)} {state : σ}, records earlier state →
      Answered specified earlier (program.execute handle state).calls ∧
        records (earlier ++ (program.execute handle state).calls)
          (program.execute handle state).state := by
  induction program with
  | done value =>
    intro earlier state start
    refine ⟨Answered.nil earlier, ?_⟩
    simpa [execute] using start
  | call request next ih =>
    intro earlier state start
    obtain ⟨answer, recorded⟩ := answers earlier state request start
    obtain ⟨answered, last⟩ := ih _ recorded
    refine ⟨Answered.cons answer answered, ?_⟩
    rw [List.append_assoc] at last
    exact last

end History

end Program

end FastModManager.Foundation
