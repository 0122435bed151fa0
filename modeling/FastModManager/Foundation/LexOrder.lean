import Mathlib.Data.List.Lex
import Mathlib.Data.List.Basic
import Mathlib.Order.Lattice

universe u

namespace FastModManager.Foundation

section Lexicographic

variable {α : Type u} [LinearOrder α]

/-- `lexicographical_compare` with the order of the elements. -/
def lexLess : List α → List α → Bool
  | [], [] => false
  | [], _ :: _ => true
  | _ :: _, [] => false
  | a :: as, b :: bs => if a < b then true else if b < a then false else lexLess as bs

@[simp] theorem lexLess_iff (left right : List α) : lexLess left right = true ↔ left < right := by
  induction left generalizing right with
  | nil => cases right <;> simp [lexLess]
  | cons a as ih =>
    cases right with
    | nil => simp [lexLess]
    | cons b bs =>
      rw [List.cons_lt_cons_iff, lexLess]
      rcases lt_trichotomy a b with h | rfl | h
      · simp [h]
      · simp [ih]
      · simp [h, h.not_gt, h.ne']

theorem lexLess_eq_false (left right : List α) : lexLess left right = false ↔ right ≤ left := by
  rw [← Bool.not_eq_true, lexLess_iff, not_lt]

theorem le_of_isPrefix {stem whole : List α} (h : stem <+: whole) : stem ≤ whole := by
  obtain ⟨rest, rfl⟩ := h
  induction stem with
  | nil => exact not_lt.mp (by simp)
  | cons a stem ih => exact List.cons_le_cons a ih

theorem lt_append_cons (stem : List α) (a : α) (rest : List α) : stem < stem ++ a :: rest := by
  induction stem with
  | nil => simp
  | cons b stem ih => simpa using ih

theorem isPrefix_of_between {stem low high : List α} (lower : stem ≤ low) (upper : low ≤ high)
    (extends_high : stem <+: high) : stem <+: low := by
  induction stem generalizing low high with
  | nil => exact List.nil_prefix
  | cons a stem ih =>
    obtain ⟨rest, rfl⟩ := extends_high
    cases low with
    | nil => exact absurd lower (not_le.mpr (by simp))
    | cons b low =>
      have first : a ≤ b := by
        by_contra h
        exact absurd lower (not_le.mpr (by simp [List.cons_lt_cons_iff, not_le.mp h]))
      have second : b ≤ a := by
        by_contra h
        exact absurd upper (not_le.mpr (by simp [List.cons_lt_cons_iff, not_le.mp h]))
      obtain rfl : a = b := le_antisymm first second
      have lower' : stem ≤ low := by simpa [← not_lt, List.cons_lt_cons_iff] using lower
      have upper' : low ≤ stem ++ rest := by simpa [← not_lt, List.cons_lt_cons_iff] using upper
      exact (List.prefix_cons_inj a).mpr (ih lower' upper' (List.prefix_append _ _))

theorem le_of_perm_of_sorted {sorted other : List α} (increasing : sorted.Pairwise (· ≤ ·))
    (perm : sorted.Perm other) : sorted ≤ other := by
  induction sorted generalizing other with
  | nil => rw [List.nil_perm.mp perm]
  | cons a sorted ih =>
    obtain ⟨first, rest⟩ := List.pairwise_cons.mp increasing
    cases other with
    | nil => exact absurd perm.length_eq (by simp)
    | cons b other =>
      have least : a ≤ b := by
        rcases List.mem_cons.mp (perm.symm.subset List.mem_cons_self) with rfl | later
        · exact le_refl _
        · exact first b later
      rcases least.lt_or_eq with less | rfl
      · exact le_of_lt (List.Lex.rel less)
      · exact List.cons_le_cons a (ih rest perm.cons_inv)

theorem lt_append_cases {other stem rest : List α} (less : other < stem ++ rest)
    (length : other.length = (stem ++ rest).length) :
    (∀ left right, other ++ left < stem ++ right) ∨
      ∃ otherRest, other = stem ++ otherRest ∧ otherRest < rest := by
  induction stem generalizing other with
  | nil => exact .inr ⟨other, rfl, less⟩
  | cons a stem ih =>
    cases other with
    | nil => simp at length
    | cons b other =>
      rcases List.cons_lt_cons_iff.mp less with first | ⟨rfl, tail⟩
      · exact .inl fun left right => List.cons_lt_cons_iff.mpr (.inl first)
      · rcases ih tail (by simpa using length) with within | ⟨otherRest, rfl, behind⟩
        · exact .inl fun left right => List.cons_lt_cons_iff.mpr (.inr ⟨rfl, within left right⟩)
        · exact .inr ⟨otherRest, rfl, behind⟩

theorem map_lt_map_iff {β : Type u} {f g : β → α} (members : β → Prop)
    (alike : ∀ a b, members a → members b → (f a < f b ↔ g a < g b)) {left right : List β}
    (inLeft : ∀ a ∈ left, members a) (inRight : ∀ a ∈ right, members a) :
    left.map f < right.map f ↔ left.map g < right.map g := by
  induction left generalizing right with
  | nil => cases right <;> simp
  | cons a left ih =>
    cases right with
    | nil => simp
    | cons b right =>
      have memberA := inLeft a (by simp)
      have memberB := inRight b (by simp)
      have same : f a = f b ↔ g a = g b := by
        rw [le_antisymm_iff, le_antisymm_iff, ← not_lt, ← not_lt, ← not_lt, ← not_lt,
          alike a b memberA memberB, alike b a memberB memberA]
      simp only [List.map_cons, List.cons_lt_cons_iff, alike a b memberA memberB, same]
      rw [ih (fun c h => inLeft c (List.mem_cons_of_mem _ h))
        (fun c h => inRight c (List.mem_cons_of_mem _ h))]

theorem append_le_append {left left' right right' : List α} (length : left.length = left'.length)
    (first : left ≤ left') (second : right ≤ right') : left ++ right ≤ left' ++ right' := by
  induction left generalizing left' with
  | nil =>
    obtain rfl := List.length_eq_zero_iff.mp length.symm
    exact second
  | cons a left ih =>
    cases left' with
    | nil => simp at length
    | cons b left' =>
      refine not_lt.mp fun less => ?_
      rcases List.cons_lt_cons_iff.mp less with smaller | ⟨rfl, tail⟩
      · exact absurd (List.cons_lt_cons_iff.mpr (.inl smaller)) (not_lt.mpr first)
      · refine absurd tail (not_lt.mpr (ih (by simpa using length) (not_lt.mp fun later => ?_)))
        exact absurd (List.cons_lt_cons_iff.mpr (.inr ⟨rfl, later⟩)) (not_lt.mpr first)

theorem filter_append_filter_le (small : α → Bool) {values : List α}
    (below : ∀ a ∈ values, ∀ b ∈ values, small a = true → small b = false → a < b) :
    values.filter small ++ values.filter (fun a => !small a) ≤ values := by
  induction values with
  | nil => exact le_refl _
  | cons a values ih =>
    have rest := ih fun b inB c inC =>
      below b (List.mem_cons_of_mem _ inB) c (List.mem_cons_of_mem _ inC)
    by_cases isSmall : small a = true
    · rw [List.filter_cons_of_pos isSmall, List.filter_cons_of_neg (by simp [isSmall])]
      exact List.cons_le_cons a rest
    · rw [List.filter_cons_of_neg isSmall, List.filter_cons_of_pos (by simp [isSmall])]
      cases found : values.filter small with
      | nil =>
        rw [found] at rest
        exact List.cons_le_cons a rest
      | cons b others =>
        have member : b ∈ values.filter small := found ▸ List.mem_cons_self
        obtain ⟨inValues, smaller⟩ := List.mem_filter.mp member
        refine le_of_lt (List.cons_lt_cons_iff.mpr (.inl ?_))
        exact below b (List.mem_cons_of_mem _ inValues) a List.mem_cons_self smaller
          (Bool.not_eq_true _ ▸ isSmall)

end Lexicographic

section LowerBound

variable {α : Type u}

def lowerBoundFrom (before : α → Bool) (values : List α) : Nat → Nat → Nat → Nat
  | 0, first, _ => first
  | fuel + 1, first, length =>
    if length = 0 then first
    else
      match values[first + length / 2]? with
      | none => first
      | some middle =>
        if before middle then
          lowerBoundFrom before values fuel (first + length / 2 + 1) (length - length / 2 - 1)
        else lowerBoundFrom before values fuel first (length / 2)

/-- `std::ranges::lower_bound`: the position of the first element that is not `before`. -/
def lowerBound (before : α → Bool) (values : List α) : Nat :=
  lowerBoundFrom before values values.length 0 values.length

theorem lowerBoundFrom_eq {before : α → Bool} {values : List α} {boundary : Nat}
    (partitioned : ∀ i (h : i < values.length), before values[i] = true ↔ i < boundary) :
    ∀ {fuel first length : Nat}, length ≤ fuel → first ≤ boundary → boundary ≤ first + length →
      first + length ≤ values.length → lowerBoundFrom before values fuel first length = boundary := by
  intro fuel
  induction fuel with
  | zero => intro first length hf h₁ h₂ _; simp only [lowerBoundFrom]; omega
  | succ fuel ih =>
    intro first length hf h₁ h₂ h₃
    simp only [lowerBoundFrom]
    split
    · omega
    · rename_i nonempty
      have inside : first + length / 2 < values.length := by omega
      have side := partitioned _ inside
      rw [List.getElem?_eq_getElem inside]
      by_cases h : before values[first + length / 2] = true
      · simp only [h, if_true]
        exact ih (by omega) (by have := side.mp h; omega) (by omega) (by omega)
      · have above : ¬ first + length / 2 < boundary := fun lt => h (side.mpr lt)
        simp only [h]
        exact ih (by omega) h₁ (by omega) (by omega)

theorem exists_boundary {before : α → Bool} {values : List α}
    (partitioned : values.Pairwise fun a b => before b = true → before a = true) :
    ∃ boundary, boundary ≤ values.length ∧ values.drop boundary = values.dropWhile before ∧
      ∀ i (h : i < values.length), before values[i] = true ↔ i < boundary := by
  induction values with
  | nil => exact ⟨0, by simp⟩
  | cons a values ih =>
    obtain ⟨first, rest⟩ := List.pairwise_cons.mp partitioned
    by_cases h : before a = true
    · obtain ⟨boundary, bound, dropped, side⟩ := ih rest
      refine ⟨boundary + 1, by simpa using bound, by simp [h, dropped], ?_⟩
      intro i hi
      cases i with
      | zero => simp [h]
      | succ i => simpa using side i (by simpa using hi)
    · refine ⟨0, Nat.zero_le _, by simp [h], ?_⟩
      intro i hi
      cases i with
      | zero => simp [h]
      | succ i =>
        have inside : i < values.length := by simpa using hi
        simpa using fun isBefore => h (first _ (List.getElem_mem inside) isBefore)

theorem drop_lowerBound {before : α → Bool} {values : List α}
    (partitioned : values.Pairwise fun a b => before b = true → before a = true) :
    values.drop (lowerBound before values) = values.dropWhile before := by
  obtain ⟨boundary, bound, dropped, side⟩ := exists_boundary partitioned
  have found : lowerBound before values = boundary :=
    lowerBoundFrom_eq side (le_refl _) (Nat.zero_le _) (by simpa using bound) (by simp)
  rw [found, dropped]

theorem takeWhile_eq_filter {hit : α → Bool} {values : List α}
    (initial : values.Pairwise fun a b => hit b = true → hit a = true) :
    values.takeWhile hit = values.filter hit := by
  induction values with
  | nil => rfl
  | cons a values ih =>
    obtain ⟨first, rest⟩ := List.pairwise_cons.mp initial
    by_cases h : hit a = true
    · rw [List.takeWhile_cons_of_pos h, List.filter_cons_of_pos h, ih rest]
    · rw [List.takeWhile_cons_of_neg h, List.filter_cons_of_neg h]
      symm
      rw [List.filter_eq_nil_iff]
      exact fun b hb hit_b => h (first b hb hit_b)

/-- A search followed by a scan that stops at the first miss finds every hit, when
the hits form one block that starts where the search stops. -/
theorem takeWhile_drop_lowerBound {before hit : α → Bool} {values : List α}
    (partitioned : values.Pairwise fun a b => before b = true → before a = true)
    (disjoint : ∀ a ∈ values, hit a = true → before a = false)
    (contiguous : values.Pairwise fun a b => before a = false → hit b = true → hit a = true) :
    (values.drop (lowerBound before values)).takeWhile hit = values.filter hit := by
  rw [drop_lowerBound partitioned]
  induction values with
  | nil => rfl
  | cons a values ih =>
    obtain ⟨first, rest⟩ := List.pairwise_cons.mp contiguous
    by_cases h : before a = true
    · have miss : ¬ hit a = true := fun found => by simp [disjoint a (by simp) found] at h
      rw [List.dropWhile_cons_of_pos h, List.filter_cons_of_neg miss]
      exact ih (List.pairwise_cons.mp partitioned).2
        (fun b hb => disjoint b (List.mem_cons_of_mem _ hb)) rest
    · rw [List.dropWhile_cons_of_neg h]
      have after : ∀ b ∈ values, before b = false := by
        intro b hb
        simpa using fun isBefore => h ((List.pairwise_cons.mp partitioned).1 b hb isBefore)
      apply takeWhile_eq_filter
      refine List.pairwise_cons.mpr ⟨fun b hb => first b hb (by simpa using h), ?_⟩
      exact rest.imp_of_mem fun {b c} hb _ holds => holds (after b hb)

end LowerBound

end FastModManager.Foundation
