import Mathlib.Logic.Relation
import Mathlib.Data.List.Forall2
import Mathlib.Data.List.Induction

universe u v

namespace FastModManager.Foundation

/-- How a computation ends without a result. -/
inductive Fault where
  | outOfRange
  | nullDereference
  | outOfFuel
  deriving DecidableEq, Repr

abbrev Checked (α : Type u) := Except Fault α

variable {α : Type u} {σ : Type u} {ρ : Type u}

def checkedAt (values : List α) (index : Nat) : Checked α :=
  match values[index]? with
  | some value => .ok value
  | none => .error .outOfRange

def checkedSet (values : List α) (index : Nat) (value : α) : Checked (List α) :=
  if index < values.length then .ok (values.set index value) else .error .outOfRange

theorem checkedAt_eq_ok {values : List α} {index : Nat} {value : α} :
    checkedAt values index = .ok value ↔ values[index]? = some value := by
  cases h : values[index]? <;> simp [checkedAt, h]

theorem checkedAt_of_lt {values : List α} {index : Nat} (h : index < values.length) :
    checkedAt values index = .ok values[index] := by
  rw [checkedAt_eq_ok, List.getElem?_eq_getElem h]

theorem checkedSet_of_lt {values : List α} {index : Nat} (value : α)
    (h : index < values.length) :
    checkedSet values index value = .ok (values.set index value) := by
  simp [checkedSet, h]

theorem checkedSet_eq_ok {values values' : List α} {index : Nat} {value : α} :
    checkedSet values index value = .ok values' ↔
      index < values.length ∧ values.set index value = values' := by
  by_cases inside : index < values.length <;> simp [checkedSet, inside]

@[simp] theorem Checked.ok_bind {β : Type u} (value : α) (next : α → Checked β) :
    ((Except.ok value : Checked α) >>= next) = next value := rfl

theorem bind_eq_ok {ε α β : Type u} {first : Except ε α} {next : α → Except ε β} {result : β} :
    (first >>= next) = .ok result ↔ ∃ value, first = .ok value ∧ next value = .ok result := by
  cases first <;> simp [bind, Except.bind]

/-- A `while` loop: the body continues with a new state or leaves with a result. -/
def iterate (body : σ → Checked (σ ⊕ ρ)) : Nat → σ → Checked ρ
  | 0, _ => .error .outOfFuel
  | fuel + 1, state => do
    match ← body state with
    | .inl next => iterate body fuel next
    | .inr result => pure result

/-- Total correctness by an invariant and a variant: the loop never faults, and
its result satisfies what the body guarantees on leaving. -/
theorem iterate_total {body : σ → Checked (σ ⊕ ρ)} (invariant : σ → Prop)
    (variant : σ → Nat) {post : ρ → Prop}
    (step : ∀ state, invariant state →
      (∃ next, body state = .ok (.inl next) ∧ invariant next ∧ variant next < variant state) ∨
        ∃ result, body state = .ok (.inr result) ∧ post result) :
    ∀ {fuel : Nat} {state : σ}, invariant state → variant state < fuel →
      ∃ result, iterate body fuel state = .ok result ∧ post result := by
  intro fuel
  induction fuel with
  | zero => intro state _ bound; exact absurd bound (Nat.not_lt_zero _)
  | succ fuel ih =>
    intro state holds bound
    rcases step state holds with ⟨next, moved, holds', smaller⟩ | ⟨result, left, done⟩
    · obtain ⟨result, ran, done⟩ := ih holds' (by omega)
      exact ⟨result, by simpa [iterate, moved] using ran, done⟩
    · exact ⟨result, by simp [iterate, left]; rfl, done⟩

theorem foldlM_total_from (step : σ → α → Checked σ) (values : List α)
    (invariant : List α → σ → Prop)
    (advance : ∀ visited, ∀ a ∈ values, ∀ state, invariant visited state →
      ∃ next, step state a = .ok next ∧ invariant (visited ++ [a]) next) :
    ∀ {visited : List α} {state : σ}, invariant visited state →
      ∃ result, values.foldlM step state = .ok result ∧ invariant (visited ++ values) result := by
  induction values with
  | nil => intro visited state holds; exact ⟨state, rfl, by simpa using holds⟩
  | cons a values ih =>
    intro visited state holds
    obtain ⟨next, moved, holds'⟩ := advance visited a List.mem_cons_self state holds
    obtain ⟨result, ran, done⟩ :=
      ih (fun visited b member => advance visited b (List.mem_cons_of_mem _ member)) holds'
    exact ⟨result, by simpa [List.foldlM_cons, moved] using ran, by simpa using done⟩

theorem foldlM_total (step : σ → α → Checked σ) (values : List α) (initial : σ)
    (invariant : List α → σ → Prop) (start : invariant [] initial)
    (advance : ∀ visited, ∀ a ∈ values, ∀ state, invariant visited state →
      ∃ next, step state a = .ok next ∧ invariant (visited ++ [a]) next) :
    ∃ result, values.foldlM step initial = .ok result ∧ invariant values result :=
  foldlM_total_from step values invariant advance start

section Projection

variable {σ' : Type u} {ρ' : Type u} (project : σ → σ')

theorem map_foldlM {step : σ → α → Checked σ} {step' : σ' → α → Checked σ'}
    (alike : ∀ state a, project <$> step state a = step' (project state) a) (values : List α)
    (state : σ) :
    project <$> values.foldlM step state = values.foldlM step' (project state) := by
  induction values generalizing state with
  | nil => rfl
  | cons a values ih =>
    rw [List.foldlM_cons, List.foldlM_cons, ← alike]
    cases step state a with
    | error fault => rfl
    | ok next => exact ih next

theorem map_iterate (projectResult : ρ → ρ') {body : σ → Checked (σ ⊕ ρ)}
    {body' : σ' → Checked (σ' ⊕ ρ')}
    (alike : ∀ state, Sum.map project projectResult <$> body state = body' (project state)) :
    ∀ {fuel : Nat} {state : σ},
      projectResult <$> iterate body fuel state = iterate body' fuel (project state) := by
  intro fuel
  induction fuel with
  | zero => intro state; rfl
  | succ fuel ih =>
    intro state
    rw [iterate, iterate, ← alike]
    cases body state with
    | error fault => rfl
    | ok outcome =>
      cases outcome with
      | inl next => exact ih
      | inr result => rfl

end Projection

section Recorded

def recorded (body : σ → Checked (σ ⊕ ρ)) (state : σ × List σ) :
    Checked ((σ × List σ) ⊕ (ρ × List σ)) := do
  match ← body state.1 with
  | .inl next => return .inl (next, state.2 ++ [state.1])
  | .inr result => return .inr (result, state.2 ++ [state.1])

def iterateRecorded (body : σ → Checked (σ ⊕ ρ)) (fuel : Nat) (state : σ) (states : List σ) :
    Checked (ρ × List σ) :=
  iterate (recorded body) fuel (state, states)

variable {body : σ → Checked (σ ⊕ ρ)}

theorem fst_recorded (state : σ × List σ) :
    Sum.map Prod.fst Prod.fst <$> recorded body state = body state.1 := by
  unfold recorded
  cases body state.1 with
  | error fault => rfl
  | ok outcome => cases outcome <;> rfl

theorem fst_iterateRecorded (fuel : Nat) (state : σ) (states : List σ) :
    Prod.fst.{u, u} <$> iterateRecorded body fuel state states = iterate body fuel state := by
  exact map_iterate.{u} Prod.fst.{u, u} Prod.fst.{u, u} fst_recorded

theorem iterateRecorded_total (invariant : σ → Prop) (variant : σ → Nat) {post : ρ → Prop}
    {implied : σ → Prop} (implies : ∀ state, invariant state → implied state)
    (step : ∀ state, invariant state →
      (∃ next, body state = .ok (.inl next) ∧ invariant next ∧ variant next < variant state) ∨
        ∃ result, body state = .ok (.inr result) ∧ post result)
    {fuel : Nat} {state : σ} {states : List σ} (start : invariant state)
    (before : ∀ earlier ∈ states, implied earlier) (bound : variant state < fuel) :
    ∃ outcome, iterateRecorded body fuel state states = .ok outcome ∧
      post outcome.1 ∧ ∀ earlier ∈ outcome.2, implied earlier := by
  refine iterate_total (fun s => invariant s.1 ∧ ∀ earlier ∈ s.2, implied earlier)
    (fun s => variant s.1) ?_ ⟨start, before⟩ bound
  rintro ⟨state, states⟩ ⟨holds, before⟩
  have all : ∀ earlier ∈ states ++ [state], implied earlier :=
    List.forall_mem_append.mpr ⟨before, List.forall_mem_singleton.mpr (implies state holds)⟩
  rcases step state holds with ⟨next, moved, holds', smaller⟩ | ⟨result, left, done⟩
  · exact .inl ⟨(next, states ++ [state]), by simp only [recorded, moved]; rfl, ⟨holds', all⟩,
      smaller⟩
  · exact .inr ⟨(result, states ++ [state]), by simp only [recorded, left]; rfl, done, all⟩

theorem length_iterateRecorded (invariant : σ → Prop) (variant : σ → Nat) (leftover : ρ → Nat)
    (step : ∀ state, invariant state →
      (∃ next, body state = .ok (.inl next) ∧ invariant next ∧ variant next < variant state) ∨
        ∃ result, body state = .ok (.inr result) ∧ leftover result ≤ variant state)
    {fuel : Nat} {state : σ} {states : List σ} {outcome : ρ × List σ} (start : invariant state)
    (ran : iterateRecorded body fuel state states = .ok outcome) :
    outcome.2.length + leftover outcome.1 ≤ states.length + variant state + 1 := by
  induction fuel generalizing state states with
  | zero => cases ran
  | succ fuel ih =>
    rcases step state start with ⟨next, moved, holds, smaller⟩ | ⟨result, left, rest⟩
    · have later : iterateRecorded body fuel next (states ++ [state]) = .ok outcome := by
        simpa [iterateRecorded, iterate, recorded, moved] using ran
      have bound := ih holds later
      rw [List.length_append, List.length_singleton] at bound
      omega
    · have last : (result, states ++ [state]) = outcome := by
        have ended :
          iterateRecorded body (fuel + 1) state states = .ok (result, states ++ [state]) := by
          simp only [iterateRecorded, iterate, recorded, left]
          rfl
        exact Except.ok.inj (ended.symm.trans ran)
      subst last
      simp only [List.length_append, List.length_singleton]
      omega

end Recorded

section Pointwise

variable {β : Type v} {related : α → β → Prop} {values : List α} {results : List β}

theorem exists_right_of_forall₂ (pointwise : List.Forall₂ related values results) {a : α}
    (member : a ∈ values) : ∃ b ∈ results, related a b := by
  induction pointwise with
  | nil => exact absurd member List.not_mem_nil
  | @cons first result _ _ head _ ih =>
    rcases List.mem_cons.mp member with rfl | member
    · exact ⟨result, List.mem_cons_self, head⟩
    · obtain ⟨b, found, holds⟩ := ih member
      exact ⟨b, List.mem_cons_of_mem _ found, holds⟩

theorem exists_left_of_forall₂ (pointwise : List.Forall₂ related values results) {b : β}
    (member : b ∈ results) : ∃ a ∈ values, related a b := by
  have flipped : List.Forall₂ (fun b a => related a b) results values := pointwise.flip
  exact exists_right_of_forall₂ flipped member

theorem forall₂_comp {γ : Type v} {related' : β → γ → Prop} {composed : α → γ → Prop}
    {outcomes : List γ} (pointwise : List.Forall₂ related values results)
    (pointwise' : List.Forall₂ related' results outcomes)
    (compose : ∀ {a b c}, related a b → related' b c → composed a c) :
    List.Forall₂ composed values outcomes := by
  induction pointwise generalizing outcomes with
  | nil => cases pointwise'; exact .nil
  | cons head _ ih =>
    cases pointwise' with
    | cons head' tail' => exact .cons (compose head head') (ih tail')

theorem map_eq_of_forall₂ {γ : Type v} {f : α → γ} {g : β → γ}
    (agree : ∀ {a b}, related a b → f a = g b) (pointwise : List.Forall₂ related values results) :
    values.map f = results.map g := by
  induction pointwise with
  | nil => rfl
  | cons head _ ih => rw [List.map_cons, List.map_cons, agree head, ih]

theorem forall₂_filter_flatMap {γ : Type v} {keep : α → Bool} {report : β → List γ}
    {reported : α → γ → Prop} (pointwise : List.Forall₂ related values results)
    (reports : ∀ a ∈ values, ∀ b ∈ results, related a b →
      (keep a = false ∧ report b = []) ∨
        keep a = true ∧ ∃ c, report b = [c] ∧ reported a c) :
    List.Forall₂ reported (values.filter keep) (results.flatMap report) := by
  induction pointwise with
  | nil => exact .nil
  | @cons a b values results head _ ih =>
    have rest := ih fun a' inValues b' inResults =>
      reports a' (List.mem_cons_of_mem _ inValues) b' (List.mem_cons_of_mem _ inResults)
    rw [List.flatMap_cons]
    rcases reports a List.mem_cons_self b List.mem_cons_self head with
      ⟨dropped, silent⟩ | ⟨kept, c, single, holds⟩
    · rw [List.filter_cons_of_neg (by simp [dropped]), silent]
      exact rest
    · rw [List.filter_cons_of_pos kept, single]
      exact .cons holds rest

theorem mapM_total {ε : Type} {α β : Type} {f : α → Except ε β} {values : List α}
    (total : ∀ a ∈ values, ∃ b, f a = .ok b) : ∃ results, values.mapM f = .ok results := by
  induction values with
  | nil => exact ⟨[], rfl⟩
  | cons a values ih =>
    obtain ⟨b, first⟩ := total a List.mem_cons_self
    obtain ⟨results, rest⟩ := ih fun a member => total a (List.mem_cons_of_mem _ member)
    exact ⟨b :: results, by rw [List.mapM_cons, first, rest]; rfl⟩

theorem mapM_congr_of_mem {ε : Type} {α β : Type} {f g : α → Except ε β} {values : List α}
    (alike : ∀ a ∈ values, f a = g a) : values.mapM f = values.mapM g := by
  induction values with
  | nil => rfl
  | cons a values ih =>
    obtain ⟨first, rest⟩ := List.forall_mem_cons.mp alike
    rw [List.mapM_cons, List.mapM_cons, first, ih rest]

theorem mapM_eq_ok_iff {ε : Type} {α β : Type} {f : α → Except ε β} {values : List α}
    {results : List β} :
    values.mapM f = .ok results ↔ List.Forall₂ (fun a b => f a = .ok b) values results := by
  induction values generalizing results with
  | nil =>
    rw [List.mapM_nil, List.forall₂_nil_left_iff]
    exact ⟨fun ran => (Except.ok.inj ran).symm, fun empty => by rw [empty]; rfl⟩
  | cons a values ih =>
    simp only [List.mapM_cons, bind_eq_ok, List.forall₂_cons_left_iff, ih]
    constructor
    · rintro ⟨b, first, rest, others, ran⟩
      exact ⟨b, rest, first, others, (Except.ok.inj ran).symm⟩
    · rintro ⟨b, rest, first, others, rfl⟩
      exact ⟨b, first, rest, others, rfl⟩

theorem mapM_eq_error_iff {ε : Type} {α β : Type} {f : α → Except ε β}
    {values : List α} {error : ε} :
    values.mapM f = .error error ↔ ∃ before value after, values = before ++ value :: after ∧
      (∀ earlier ∈ before, ∃ result, f earlier = .ok result) ∧ f value = .error error := by
  induction values with
  | nil =>
    rw [List.mapM_nil]
    constructor
    · intro failed
      cases failed
    · rintro ⟨before, value, after, split, _⟩
      cases before <;> cases split
  | cons a values ih =>
    rw [List.mapM_cons]
    constructor
    · intro failed
      cases first : f a with
      | error error' =>
        rw [first] at failed
        cases failed
        exact ⟨[], a, values, rfl, by simp, first⟩
      | ok b =>
        have later : values.mapM f = .error error := by
          cases rest : values.mapM f with
          | error error' => rw [first, rest] at failed; exact failed
          | ok results => rw [first, rest] at failed; cases failed
        obtain ⟨before, value, after, rfl, succeed, fails⟩ := ih.mp later
        exact ⟨a :: before, value, after, rfl, List.forall_mem_cons.mpr ⟨⟨b, first⟩, succeed⟩, fails⟩
    · rintro ⟨before, value, after, split, succeed, fails⟩
      cases before with
      | nil =>
        cases split
        rw [fails]
        rfl
      | cons _ before =>
        cases split
        obtain ⟨⟨b, first⟩, succeed⟩ := List.forall_mem_cons.mp succeed
        rw [first, ih.mpr ⟨before, value, after, rfl, succeed, fails⟩]
        rfl

end Pointwise

section First

variable {values : List α}

theorem exists_first_of_not_forall {holds : α → Prop} (fails : ¬ ∀ a ∈ values, holds a) :
    ∃ before a after, values = before ++ a :: after ∧ (∀ b ∈ before, holds b) ∧ ¬ holds a := by
  induction values with
  | nil => exact absurd (List.forall_mem_nil _) fails
  | cons first values ih =>
    by_cases here : holds first
    · obtain ⟨before, a, after, rfl, earlier, there⟩ :=
        ih fun rest => fails (List.forall_mem_cons.mpr ⟨here, rest⟩)
      exact ⟨first :: before, a, after, rfl, List.forall_mem_cons.mpr ⟨here, earlier⟩, there⟩
    · exact ⟨[], first, values, rfl, List.forall_mem_nil _, here⟩

theorem exists_first_repetition (repeats : ¬ values.Nodup) :
    ∃ before a after, values = before ++ a :: after ∧ before.Nodup ∧ a ∈ before := by
  induction values using List.reverseRecOn with
  | nil => exact absurd List.nodup_nil repeats
  | append_singleton values last ih =>
    by_cases nodup : values.Nodup
    · refine ⟨values, last, [], rfl, nodup, ?_⟩
      by_contra fresh
      refine repeats (List.nodup_append.mpr ⟨nodup, by simp, fun a member b atEnd same => fresh ?_⟩)
      rwa [← List.mem_singleton.mp atEnd, ← same]
    · obtain ⟨before, a, after, split, distinct, again⟩ := ih nodup
      exact ⟨before, a, after ++ [last], by simp [split], distinct, again⟩

end First

end FastModManager.Foundation
