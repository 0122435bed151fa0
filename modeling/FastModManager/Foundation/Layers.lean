import Mathlib.Data.List.Basic

universe u v w

namespace FastModManager.Foundation

abbrev Layer (κ : Type u) (ν : Type v) := κ → Option ν

namespace Layer

variable {κ : Type u} {ν : Type v} {γ : Type w}

def empty : Layer κ ν := fun _ => none

def atop (upper lower : Layer κ ν) : Layer κ ν := fun key => (upper key).or (lower key)

def stack (layers : List (Layer κ ν)) : Layer κ ν :=
  layers.foldl (fun lower upper => upper.atop lower) empty

@[simp] theorem atop_empty (layer : Layer κ ν) : layer.atop empty = layer := by
  funext key
  exact Option.or_none

theorem atop_assoc (upper middle lower : Layer κ ν) :
    (upper.atop middle).atop lower = upper.atop (middle.atop lower) := by
  funext key
  exact Option.or_assoc

theorem foldl_atop (layers : List (Layer κ ν)) (bottom : Layer κ ν) :
    layers.foldl (fun lower upper => upper.atop lower) bottom = (stack layers).atop bottom := by
  induction layers generalizing bottom with
  | nil => rfl
  | cons layer layers ih =>
    rw [stack, List.foldl_cons, List.foldl_cons, ih, ih, atop_assoc, atop_empty]

theorem stack_append (lower upper : List (Layer κ ν)) :
    stack (lower ++ upper) = (stack upper).atop (stack lower) := by
  rw [stack, List.foldl_append, foldl_atop]
  rfl

theorem stack_singleton (layer : Layer κ ν) : stack [layer] = layer := atop_empty layer

theorem stack_cons (layer : Layer κ ν) (layers : List (Layer κ ν)) :
    stack (layer :: layers) = (stack layers).atop layer := by
  rw [← List.singleton_append, stack_append, stack_singleton]

variable {layers : List (Layer κ ν)} {key : κ} {value : ν}

theorem stack_eq_none_iff : stack layers key = none ↔ ∀ layer ∈ layers, layer key = none := by
  induction layers with
  | nil => simp [stack, empty]
  | cons layer layers ih => rw [stack_cons, atop, Option.or_eq_none_iff, ih, List.forall_mem_cons,
      and_comm]

theorem stack_eq_some_iff : stack layers key = some value ↔
    ∃ before layer after, layers = before ++ layer :: after ∧ layer key = some value ∧
      ∀ other ∈ after, other key = none := by
  induction layers with
  | nil => simp [stack, empty]
  | cons first layers ih =>
    rw [stack_cons, atop, Option.or_eq_some_iff, ih, stack_eq_none_iff]
    constructor
    · rintro (⟨before, layer, after, rfl, here, none⟩ | ⟨none, here⟩)
      · exact ⟨first :: before, layer, after, rfl, here, none⟩
      · exact ⟨[], first, layers, rfl, here, none⟩
    · rintro ⟨before, layer, after, split, here, none⟩
      cases before with
      | nil =>
        obtain ⟨rfl, rfl⟩ := List.cons.inj split
        exact .inr ⟨none, here⟩
      | cons second before =>
        obtain ⟨rfl, rfl⟩ := List.cons.inj split
        exact .inl ⟨before, layer, after, rfl, here, none⟩

theorem stack_of_agree (agree : ∀ layer ∈ layers, ∀ other, layer key = some other → other = value)
    (shown : ∃ layer ∈ layers, layer key ≠ none) : stack layers key = some value := by
  cases found : stack layers key with
  | none =>
    obtain ⟨layer, member, some⟩ := shown
    exact absurd (stack_eq_none_iff.mp found layer member) some
  | some other =>
    obtain ⟨before, layer, after, rfl, here, _⟩ := stack_eq_some_iff.mp found
    rw [agree layer (by simp) other here]

def Agree (kind : ν → γ) (left right : Layer κ ν) : Prop :=
  ∀ key value other, left key = some value → right key = some other → kind value = kind other

end Layer

end FastModManager.Foundation
