import Mathlib.Data.List.Perm.Basic
import Mathlib.Data.List.Nodup

universe u v

namespace FastModManager.Foundation

variable {α : Type u} {β : Type v} {rename : α → β} {values : List α}

def KeepsApart (rename : α → β) (values : List α) : Prop :=
  ∀ a ∈ values, ∀ b ∈ values, rename a = rename b → a = b

theorem KeepsApart.mono {values' : List α} (apart : KeepsApart rename values)
    (subset : values' ⊆ values) : KeepsApart rename values' :=
  fun a inA b inB => apart a (subset inA) b (subset inB)

theorem KeepsApart.nodup_map (apart : KeepsApart rename values) (nodup : values.Nodup) :
    (values.map rename).Nodup :=
  nodup.map_on apart

theorem idxOf_map [DecidableEq α] [DecidableEq β] {a : α}
    (apart : KeepsApart rename (a :: values)) :
    (values.map rename).idxOf (rename a) = values.idxOf a := by
  induction values with
  | nil => rfl
  | cons b values ih =>
    have same_iff : rename b = rename a ↔ b = a :=
      ⟨apart b (by simp) a (by simp), congrArg rename⟩
    have later := ih (apart.mono (List.cons_subset_cons a (List.subset_cons_self b values)))
    by_cases same : b = a
    · rw [same, List.map_cons, List.idxOf_cons_self, List.idxOf_cons_self]
    · rw [List.map_cons, List.idxOf_cons_ne _ (mt same_iff.mp same), List.idxOf_cons_ne _ same, later]

theorem exists_of_perm_map {renamed : List β} (perm : renamed.Perm (values.map rename)) :
    ∃ original : List α, original.Perm values ∧ renamed = original.map rename := by
  have pointwise : List.Forall₂ (fun b a => b = rename a) (values.map rename) values := by
    rw [List.forall₂_map_left_iff]
    exact List.forall₂_same.mpr fun _ _ => rfl
  obtain ⟨original, same, reordered⟩ := List.perm_comp_forall₂ perm pointwise
  refine ⟨original, reordered, ?_⟩
  rwa [← List.forall₂_eq_eq_eq, List.forall₂_map_right_iff]

end FastModManager.Foundation
