import Mathlib.Data.List.AList
import Mathlib.Data.Finset.Basic
import FastModManager.Foundation.Checked

universe u v

namespace FastModManager.Foundation

abbrev Map (κ : Type u) (β : Type v) := AList (fun _ : κ => β)

namespace Map

variable {κ : Type u} [DecidableEq κ] {β : Type v}

def emplace (map : Map κ β) (key : κ) (value : β) : Map κ β × Bool :=
  if key ∈ map then (map, false) else (map.insert key value, true)

def emplaceAll (map : Map κ β) (items : List (κ × β)) : Map κ β :=
  items.foldl (fun map item => (map.emplace item.1 item.2).1) map

def indexAll (keys : List κ) : Map κ Nat := emplaceAll ∅ keys.zipIdx

/-- `std::map::at`. -/
def checkedAt {β : Type u} (map : Map κ β) (key : κ) : Checked β :=
  match map.lookup key with
  | some value => .ok value
  | none => .error .outOfRange

theorem checkedAt_of_lookup {β : Type u} {map : Map κ β} {key : κ} {value : β}
    (h : map.lookup key = some value) : map.checkedAt key = .ok value := by
  simp [checkedAt, h]

theorem lookup_emplace (map : Map κ β) (key other : κ) (value : β) :
    (map.emplace key value).1.lookup other =
      (map.lookup other).or (if other = key then some value else none) := by
  unfold emplace
  split
  · rename_i known
    by_cases h : other = key
    · subst h
      obtain ⟨old, found⟩ := Option.isSome_iff_exists.mp (AList.lookup_isSome.mpr known)
      simp [found]
    · simp [h]
  · rename_i fresh
    by_cases h : other = key
    · subst h
      simp [AList.lookup_insert, AList.lookup_eq_none.mpr fresh]
    · simp [AList.lookup_insert_ne h, h]

theorem lookup_emplaceAll (map : Map κ β) (items : List (κ × β)) (key : κ) :
    (map.emplaceAll items).lookup key = (map.lookup key).or (items.lookup key) := by
  induction items generalizing map with
  | nil => simp [emplaceAll]
  | cons item items ih =>
    obtain ⟨first, value⟩ := item
    simp only [emplaceAll, List.foldl_cons]
    rw [← emplaceAll, ih, lookup_emplace, Option.or_assoc]
    congr 1
    by_cases h : key = first
    · subst h; simp
    · have differs : (key == first) = false := by simpa using h
      simp [List.lookup_cons, h, differs]

theorem lookup_emplaceAll_of_mem {items : List (κ × β)} {key : κ} {value : β}
    (distinct : (items.map Prod.fst).Nodup) (member : (key, value) ∈ items) :
    (emplaceAll ∅ items).lookup key = some value := by
  rw [lookup_emplaceAll, AList.lookup_empty, Option.none_or]
  induction items with
  | nil => exact absurd member List.not_mem_nil
  | cons item items ih =>
    obtain ⟨first, distinct⟩ := List.nodup_cons.mp distinct
    rw [List.lookup_cons]
    rcases List.mem_cons.mp member with rfl | member
    · simp
    · have differs : (key == item.1) = false := by
        rw [beq_eq_false_iff_ne]
        rintro rfl
        exact first (List.mem_map.mpr ⟨_, member, rfl⟩)
      simp only [differs]
      exact ih distinct member

theorem lookup_zipIdx (keys : List κ) (key : κ) (start : Nat) :
    (keys.zipIdx start).lookup key = if key ∈ keys then some
    (keys.idxOf key + start) else none := by
  induction keys generalizing start with
  | nil => simp
  | cons first keys ih =>
    rw [List.zipIdx_cons, List.lookup_cons, ih]
    by_cases h : key = first
    · subst h; simp
    · have differs : (key == first) = false := by simpa using h
      simp only [differs, List.mem_cons, h, false_or, List.idxOf_cons_ne _ (Ne.symm h)]
      split
      · simp; omega
      · rfl

theorem lookup_indexAll (keys : List κ) (key : κ) :
    (indexAll keys).lookup key = if key ∈ keys then some (keys.idxOf key) else none := by
  rw [indexAll, lookup_emplaceAll, lookup_zipIdx]
  simp

theorem checkedAt_of_mem {β : Type u} {map : Map κ β} {key : κ} (h : key ∈ map) :
    ∃ value, map.lookup key = some value ∧ map.checkedAt key = .ok value := by
  obtain ⟨value, found⟩ := Option.isSome_iff_exists.mp (AList.lookup_isSome.mpr h)
  exact ⟨value, found, checkedAt_of_lookup found⟩

end Map

section Insertion

variable {α : Type u} [DecidableEq α]

def insertedInto (occupied : Finset α) : List α → List α
  | [] => []
  | a :: rest =>
    if a ∈ occupied then insertedInto occupied rest
    else a :: insertedInto (insert a occupied) rest

theorem mem_insertedInto {occupied : Finset α} {values : List α} {a : α} :
    a ∈ insertedInto occupied values ↔ a ∈ values ∧ a ∉ occupied := by
  induction values generalizing occupied with
  | nil => simp [insertedInto]
  | cons b values ih =>
    rw [insertedInto]
    split
    · rename_i known
      rw [ih, List.mem_cons]
      constructor
      · rintro ⟨member, fresh⟩
        exact ⟨.inr member, fresh⟩
      · rintro ⟨rfl | member, fresh⟩
        · exact absurd known fresh
        · exact ⟨member, fresh⟩
    · rename_i fresh
      rw [List.mem_cons, List.mem_cons, ih, Finset.mem_insert, not_or]
      by_cases same : a = b
      · subst same; simp [fresh]
      · simp [same]

theorem nodup_insertedInto (occupied : Finset α) (values : List α) :
    (insertedInto occupied values).Nodup := by
  induction values generalizing occupied with
  | nil => exact List.nodup_nil
  | cons b values ih =>
    rw [insertedInto]
    split
    · exact ih occupied
    · refine List.nodup_cons.mpr ⟨fun again => ?_, ih _⟩
      exact (mem_insertedInto.mp again).2 (Finset.mem_insert_self b occupied)

end Insertion

end FastModManager.Foundation
