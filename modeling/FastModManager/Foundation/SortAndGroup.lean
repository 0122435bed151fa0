import Mathlib.Data.List.Sort

universe u v

namespace FastModManager.Foundation

variable {α : Type u} {κ : Type v}

def sortBy (less : α → α → Bool) (values : List α) : List α :=
  values.insertionSort fun a b => less b a = false

theorem sortBy_perm (less : α → α → Bool) (values : List α) : (sortBy less values).Perm values :=
  List.perm_insertionSort _ values

theorem sortBy_pairwise [LinearOrder κ] {less : α → α → Bool} (key : α → κ)
    (reads : ∀ a b, less a b = true ↔ key a < key b) (values : List α) :
    (sortBy less values).Pairwise fun a b => key a ≤ key b := by
  have le_iff : ∀ a b, less b a = false ↔ key a ≤ key b := by
    intro a b
    rw [← Bool.not_eq_true, reads, not_lt]
  have total : Std.Total fun a b => less b a = false :=
    ⟨fun a b => by rw [le_iff, le_iff]; exact le_total _ _⟩
  have trans : IsTrans α fun a b => less b a = false :=
    ⟨fun a b c => by rw [le_iff, le_iff, le_iff]; exact le_trans⟩
  exact (List.pairwise_insertionSort _ values).imp fun {a b} h => (le_iff a b).mp h

theorem sortBy_increasing [LinearOrder κ] {less : α → α → Bool} (key : α → κ)
    (reads : ∀ a b, less a b = true ↔ key a < key b) {values : List α}
    (distinct : (values.map key).Nodup) :
    (sortBy less values).Pairwise fun a b => key a < key b := by
  have nodup : ((sortBy less values).map key).Nodup :=
    ((sortBy_perm less values).map key).nodup_iff.mpr distinct
  apply ((sortBy_pairwise key reads values).and (List.pairwise_map.mp nodup)).imp
  exact fun h => lt_of_le_of_ne h.1 h.2

theorem eq_of_mem_iff_of_increasing [Preorder κ] (key : α → κ) {left right : List α}
    (leftIncreasing : left.Pairwise fun a b => key a < key b)
    (rightIncreasing : right.Pairwise fun a b => key a < key b)
    (same : ∀ a, a ∈ left ↔ a ∈ right) : left = right := by
  have irrefl : Std.Irrefl fun a b => key a < key b := ⟨fun a => lt_irrefl (key a)⟩
  have asymm : Std.Antisymm fun a b : α => key a < key b :=
    ⟨fun a b less less' => absurd (less.trans less') (lt_irrefl _)⟩
  exact List.Pairwise.eq_of_mem_iff leftIncreasing rightIncreasing same

theorem exists_earlier_of_increasing [Preorder κ] (key : α → κ) {values : List α} {a b : α}
    {later : Nat} (increasing : values.Pairwise fun a b => key a < key b) (member : a ∈ values)
    (found : values[later]? = some b) (less : key a < key b) :
    ∃ earlier, earlier < later ∧ values[earlier]? = some a := by
  obtain ⟨earlier, inside, rfl⟩ := List.mem_iff_getElem.mp member
  obtain ⟨inside', rfl⟩ := List.getElem?_eq_some_iff.mp found
  refine ⟨earlier, ?_, List.getElem?_eq_getElem inside⟩
  rcases Nat.lt_trichotomy earlier later with before | same | after
  · exact before
  · subst same
    exact absurd less (lt_irrefl _)
  · exact absurd (less.trans (List.pairwise_iff_getElem.mp increasing _ _ inside' inside after))
      (lt_irrefl _)

variable [DecidableEq κ]

def groupRunsFrom (key : α → κ) (current : κ) (members : List α) : List α → List (κ × List α)
  | [] => [(current, members)]
  | a :: rest =>
    if key a = current then groupRunsFrom key current (members ++ [a]) rest
    else (current, members) :: groupRunsFrom key (key a) [a] rest

/-- The maximal runs of neighbours with one key, each with its key. -/
def groupRuns (key : α → κ) : List α → List (κ × List α)
  | [] => []
  | a :: rest => groupRunsFrom key (key a) [a] rest

theorem flatMap_groupRunsFrom (key : α → κ) (current : κ) (members rest : List α) :
    (groupRunsFrom key current members rest).flatMap Prod.snd = members ++ rest := by
  induction rest generalizing current members with
  | nil => simp [groupRunsFrom]
  | cons a rest ih =>
    rw [groupRunsFrom]
    split
    · rw [ih]; simp
    · rw [List.flatMap_cons, ih]; simp

theorem flatMap_groupRuns (key : α → κ) (values : List α) :
    (groupRuns key values).flatMap Prod.snd = values := by
  cases values with
  | nil => rfl
  | cons a rest => rw [groupRuns, flatMap_groupRunsFrom]; rfl

theorem groupRunsFrom_members (key : α → κ) {current : κ} {members rest : List α}
    (nonempty : members ≠ []) (same : ∀ a ∈ members, key a = current) :
    ∀ group ∈ groupRunsFrom key current members rest,
      group.2 ≠ [] ∧ ∀ a ∈ group.2, key a = group.1 := by
  induction rest generalizing current members with
  | nil => intro group h; obtain rfl := List.mem_singleton.mp h; exact ⟨nonempty, same⟩
  | cons a rest ih =>
    intro group h
    rw [groupRunsFrom] at h
    split at h
    · rename_i equal
      apply ih (by simp) _ group h
      intro b hb
      rcases List.mem_append.mp hb with hb | hb
      · exact same b hb
      · rw [List.mem_singleton.mp hb, equal]
    · rcases List.mem_cons.mp h with rfl | h
      · exact ⟨nonempty, same⟩
      · exact ih (by simp) (by simp) group h

theorem groupRuns_members (key : α → κ) (values : List α) :
    ∀ group ∈ groupRuns key values, group.2 ≠ [] ∧ ∀ a ∈ group.2, key a = group.1 := by
  cases values with
  | nil => intro group h; exact absurd h List.not_mem_nil
  | cons a rest => exact groupRunsFrom_members key (by simp) (by simp)

section Sorted

variable [LinearOrder κ]

theorem groupRunsFrom_keys (key : α → κ) (current : κ) (members : List α) {rest : List α}
    (sorted : rest.Pairwise fun a b => key a ≤ key b) (above : ∀ a ∈ rest, current ≤ key a) :
    ((groupRunsFrom key current members rest).map Prod.fst).Pairwise (· < ·) ∧
      ∀ k ∈ (groupRunsFrom key current members rest).map Prod.fst, current ≤ k := by
  induction rest generalizing current members with
  | nil => simp [groupRunsFrom]
  | cons a rest ih =>
    obtain ⟨first, tail⟩ := List.pairwise_cons.mp sorted
    rw [groupRunsFrom]
    split
    · exact ih current (members ++ [a]) tail (fun b hb => above b (List.mem_cons_of_mem _ hb))
    · rename_i differs
      have later : current < key a := lt_of_le_of_ne (above a (by simp)) (Ne.symm differs)
      obtain ⟨increasing, bound⟩ := ih (key a) [a] tail first
      simp only [List.map_cons, List.pairwise_cons, List.mem_cons, forall_eq_or_imp]
      exact ⟨⟨fun k hk => later.trans_le (bound k hk), increasing⟩, le_refl _,
        fun k hk => later.le.trans (bound k hk)⟩

theorem groupRuns_keys (key : α → κ) {values : List α}
    (sorted : values.Pairwise fun a b => key a ≤ key b) :
    ((groupRuns key values).map Prod.fst).Pairwise (· < ·) := by
  cases values with
  | nil => exact List.Pairwise.nil
  | cons a rest =>
    obtain ⟨first, tail⟩ := List.pairwise_cons.mp sorted
    exact (groupRunsFrom_keys key (key a) [a] tail first).1

theorem filter_flatMap_of_keys {groups : List (κ × List α)} (key : α → κ)
    (increasing : (groups.map Prod.fst).Pairwise (· < ·))
    (members : ∀ group ∈ groups, ∀ a ∈ group.2, key a = group.1) :
    ∀ group ∈ groups, (groups.flatMap Prod.snd).filter (fun a => key a = group.1) = group.2 := by
  induction groups with
  | nil => intro group h; exact absurd h List.not_mem_nil
  | cons head groups ih =>
    obtain ⟨first, tail⟩ := List.pairwise_cons.mp increasing
    have members' : ∀ group ∈ groups, ∀ a ∈ group.2, key a = group.1 :=
      fun group h => members group (List.mem_cons_of_mem _ h)
    intro group h
    rw [List.flatMap_cons, List.filter_append]
    rcases List.mem_cons.mp h with rfl | h
    · have own : group.2.filter (fun a => key a = group.1) = group.2 := by
        rw [List.filter_eq_self]
        exact fun a ha => by simpa using members group (by simp) a ha
      have others : (groups.flatMap Prod.snd).filter (fun a => key a = group.1) = [] := by
        rw [List.filter_eq_nil_iff]
        intro a ha
        obtain ⟨other, hother, ha⟩ := List.mem_flatMap.mp ha
        have less := first other.1 (List.mem_map_of_mem hother)
        simpa [members' other hother a ha] using less.ne'
      rw [own, others, List.append_nil]
    · have head_misses : head.2.filter (fun a => key a = group.1) = [] := by
        rw [List.filter_eq_nil_iff]
        intro a ha
        have less := first group.1 (List.mem_map_of_mem h)
        simpa [members head (by simp) a ha] using less.ne
      rw [head_misses, List.nil_append]
      exact ih tail members' group h

theorem mem_groupRuns_iff (key : α → κ) {values : List α}
    (sorted : values.Pairwise fun a b => key a ≤ key b) (k : κ) (group : List α) :
    (k, group) ∈ groupRuns key values ↔
      group = values.filter (fun a => key a = k) ∧ ∃ a ∈ values, key a = k := by
  have members := groupRuns_members key values
  have fibres := filter_flatMap_of_keys key (groupRuns_keys key sorted)
    (fun group h => (members group h).2)
  rw [flatMap_groupRuns] at fibres
  constructor
  · intro h
    obtain ⟨nonempty, same⟩ := members _ h
    have fibre := fibres _ h
    refine ⟨fibre.symm, ?_⟩
    obtain ⟨a, ha⟩ := List.exists_mem_of_ne_nil group nonempty
    have inValues : a ∈ values.filter fun a => key a = k := fibre ▸ ha
    exact ⟨a, (List.mem_filter.mp inValues).1, same a ha⟩
  · rintro ⟨rfl, a, ha, rfl⟩
    rw [← flatMap_groupRuns key values] at ha
    obtain ⟨⟨k, group⟩, hgroup, ha⟩ := List.mem_flatMap.mp ha
    have keyEq : key a = k := (members _ hgroup).2 a ha
    have fibre := fibres _ hgroup
    simp only at fibre
    rw [keyEq, fibre]
    exact hgroup

end Sorted

section Keys

theorem filter_eq_singleton_of_nodup_map {key : α → κ} {values : List α} {a : α}
    (distinct : (values.map key).Nodup) (member : a ∈ values) :
    values.filter (fun b => key b = key a) = [a] := by
  induction values with
  | nil => exact absurd member List.not_mem_nil
  | cons b values ih =>
    obtain ⟨first, distinct⟩ := List.nodup_cons.mp distinct
    rcases List.mem_cons.mp member with rfl | member
    · rw [List.filter_cons_of_pos (by simp)]
      congr 1
      apply List.filter_eq_nil_iff.mpr
      intro c later
      have differs : key c ≠ key a := fun same => first (same ▸ List.mem_map_of_mem later)
      simpa using differs
    · have differs : key b ≠ key a := fun same => first (same ▸ List.mem_map_of_mem member)
      rw [List.filter_cons_of_neg (by simpa using differs)]
      exact ih distinct member

theorem idxOf_filter_lt_iff {keep : κ → Bool} {values : List κ} {a b : κ}
    (keepsLeft : keep a = true) (keepsRight : keep b = true) :
    (values.filter keep).idxOf a < (values.filter keep).idxOf b ↔
      values.idxOf a < values.idxOf b := by
  induction values with
  | nil => rfl
  | cons c values ih =>
    cases kept : keep c with
    | true =>
      rw [List.filter_cons_of_pos kept, List.idxOf_cons, List.idxOf_cons, List.idxOf_cons,
        List.idxOf_cons]
      cases c == a <;> cases c == b <;> simp [ih]
    | false =>
      have left : c ≠ a := by rintro rfl; simp [kept] at keepsLeft
      have right : c ≠ b := by rintro rfl; simp [kept] at keepsRight
      rw [List.filter_cons_of_neg (by simp [kept]), ih]
      simp [left, right]

end Keys

end FastModManager.Foundation
