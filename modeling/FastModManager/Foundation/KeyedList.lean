import Mathlib.Data.List.Nodup

universe u v

namespace FastModManager.Foundation.KeyedList

variable {κ : Type u} [DecidableEq κ] {α : Type v}

def upsert (key : α → κ) (wanted : κ) (change : α → α) (fresh : α) : List α → List α
  | [] => [fresh]
  | item :: items =>
    if key item = wanted then change item :: items
    else item :: upsert key wanted change fresh items

variable {key : α → κ} {wanted other : κ} {change : α → α} {fresh : α} {items : List α}

section Find

theorem find?_upsert_self (freshKey : key fresh = wanted)
    (changeKey : ∀ item, key (change item) = key item) :
    (upsert key wanted change fresh items).find? (key · = wanted) =
      some ((items.find? (key · = wanted)).elim fresh change) := by
  induction items with
  | nil => simp [upsert, freshKey]
  | cons item items ih =>
    by_cases same : key item = wanted
    · simp [upsert, same, changeKey]
    · simp [upsert, same, ih]

theorem find?_upsert_of_ne (freshKey : key fresh = wanted)
    (changeKey : ∀ item, key (change item) = key item) (different : other ≠ wanted) :
    (upsert key wanted change fresh items).find? (key · = other) =
      items.find? (key · = other) := by
  induction items with
  | nil => simp [upsert, freshKey, different.symm]
  | cons item items ih =>
    by_cases same : key item = wanted
    · simp [upsert, same, changeKey, different.symm]
    · simp [upsert, same, List.find?_cons, ih]

theorem find?_key_of_mem (distinct : (items.map key).Nodup) {item : α} (member : item ∈ items) :
    items.find? (key · = key item) = some item := by
  induction items with
  | nil => cases member
  | cons first items ih =>
    obtain ⟨firstNew, distinct⟩ := List.nodup_cons.mp distinct
    rcases List.mem_cons.mp member with rfl | later
    · simp
    · have different : key first ≠ key item := by
        intro same
        exact firstNew (same ▸ List.mem_map_of_mem later)
      rw [List.find?_cons_of_neg (by simpa using different)]
      exact ih distinct later

end Find

section Items

theorem forall_mem_upsert {P : α → Prop} (old : ∀ item ∈ items, P item) (new : P fresh)
    (changed : ∀ item ∈ items, P (change item)) :
    ∀ item ∈ upsert key wanted change fresh items, P item := by
  induction items with
  | nil => simpa [upsert] using new
  | cons item items ih =>
    obtain ⟨oldItem, oldItems⟩ := List.forall_mem_cons.mp old
    obtain ⟨changedItem, changedItems⟩ := List.forall_mem_cons.mp changed
    rw [upsert]
    split
    · exact List.forall_mem_cons.mpr ⟨changedItem, oldItems⟩
    · exact List.forall_mem_cons.mpr ⟨oldItem, ih oldItems changedItems⟩

theorem upsert_of_notMem (new : wanted ∉ items.map key) :
    upsert key wanted change fresh items = items ++ [fresh] := by
  induction items with
  | nil => rfl
  | cons item items ih =>
    rw [List.map_cons, List.mem_cons, not_or] at new
    rw [upsert, if_neg (Ne.symm new.1), ih new.2, List.cons_append]

theorem upsert_append_singleton {item : α} (new : key item ∉ items.map key) :
    upsert key (key item) change fresh (items ++ [item]) = items ++ [change item] := by
  induction items with
  | nil => simp [upsert]
  | cons first items ih =>
    rw [List.map_cons, List.mem_cons, not_or] at new
    rw [List.cons_append, upsert, if_neg (Ne.symm new.1), ih new.2, List.cons_append]

theorem map_key_upsert (freshKey : key fresh = wanted)
    (changeKey : ∀ item, key (change item) = key item) :
    (upsert key wanted change fresh items).map key =
      if wanted ∈ items.map key then items.map key else items.map key ++ [wanted] := by
  induction items with
  | nil => simp [upsert, freshKey]
  | cons item items ih =>
    by_cases same : key item = wanted
    · simp [upsert, same, changeKey]
    · have different : wanted ≠ key item := Ne.symm same
      rw [upsert, if_neg same, List.map_cons, ih, List.map_cons]
      simp only [List.mem_cons, different, false_or]
      split <;> rfl

theorem nodup_upsert (freshKey : key fresh = wanted)
    (changeKey : ∀ item, key (change item) = key item) (distinct : (items.map key).Nodup) :
    ((upsert key wanted change fresh items).map key).Nodup := by
  rw [map_key_upsert freshKey changeKey]
  split
  · exact distinct
  · rename_i new
    rw [← List.concat_eq_append]
    exact distinct.concat new

end Items

section FirstMentions

def mention (known : List κ) (name : κ) : List κ := if name ∈ known then known else known ++ [name]

def firstMentions (names : List κ) : List κ := names.foldl mention []

theorem map_key_upsert_eq_mention (freshKey : key fresh = wanted)
    (changeKey : ∀ item, key (change item) = key item) :
    (upsert key wanted change fresh items).map key = mention (items.map key) wanted :=
  map_key_upsert freshKey changeKey

end FirstMentions

end FastModManager.Foundation.KeyedList
