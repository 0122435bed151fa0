import FastModManager.Foundation.Segments

universe u

namespace FastModManager.Foundation.PathWalk

open Segments (pieces)

variable {α : Type u} [DecidableEq α] (sep : α) (here up : List α)

def follow (directory : List (List α)) (segment : List α) : List (List α) :=
  if segment = [] ∨ segment = here then directory
  else if segment = up then directory.dropLast
  else directory ++ [segment]

def lookup (directory : List (List α)) (path : List α) : List (List α) :=
  (path.splitOn sep).foldl (follow here up) (if path.head? = some sep then [] else directory)

/-- Wherever the path is looked up, it leads down from there along its own segments. -/
def Confined (path : List α) : Prop :=
  ∀ directory, lookup sep here up directory path = directory ++ pieces sep path

structure Proper (segment : List α) : Prop where
  nonempty : segment ≠ []
  ne_here : segment ≠ here
  ne_up : segment ≠ up

variable {sep here up} {directory : List (List α)} {segment path root suffix : List α}
  {segments : List (List α)}

theorem follow_of_proper (proper : Proper here up segment) :
    follow here up directory segment = directory ++ [segment] := by
  rw [follow, if_neg (not_or.mpr ⟨proper.nonempty, proper.ne_here⟩), if_neg proper.ne_up]

theorem length_follow_le_of_not_proper (improper : ¬ Proper here up segment) :
    (follow here up directory segment).length ≤ directory.length := by
  unfold follow
  split
  · exact Nat.le_refl _
  · rename_i named
    split
    · rw [List.length_dropLast]
      exact Nat.sub_le _ _
    · rename_i down
      rw [not_or] at named
      exact absurd ⟨named.1, named.2, down⟩ improper

theorem foldl_follow_of_proper (proper : ∀ segment ∈ segments, Proper here up segment) :
    ∀ directory, segments.foldl (follow here up) directory = directory ++ segments := by
  induction segments with
  | nil => intro directory; exact (List.append_nil _).symm
  | cons first rest ih =>
    obtain ⟨firstProper, restProper⟩ := List.forall_mem_cons.mp proper
    intro directory
    rw [List.foldl_cons, follow_of_proper firstProper, ih restProper, List.append_assoc]
    rfl

theorem length_foldl_follow_le : ∀ directory : List (List α),
    (segments.foldl (follow here up) directory).length ≤ directory.length + segments.length := by
  induction segments with
  | nil => intro directory; exact Nat.le_refl _
  | cons first rest ih =>
    intro directory
    have later := ih (follow here up directory first)
    by_cases proper : Proper here up first
    · rw [follow_of_proper proper, List.length_append, List.length_singleton] at later
      rw [List.foldl_cons, follow_of_proper proper, List.length_cons]
      omega
    · have shorter : (follow here up directory first).length ≤ directory.length :=
        length_follow_le_of_not_proper proper
      rw [List.foldl_cons, List.length_cons]
      omega

theorem proper_of_length_foldl_follow : ∀ directory : List (List α),
    directory.length + segments.length ≤ (segments.foldl (follow here up) directory).length →
      ∀ segment ∈ segments, Proper here up segment := by
  induction segments with
  | nil => nofun
  | cons first rest ih =>
    intro directory deep
    rw [List.foldl_cons, List.length_cons] at deep
    have bound : (rest.foldl (follow here up) (follow here up directory first)).length ≤
        (follow here up directory first).length + rest.length := length_foldl_follow_le _
    have proper : Proper here up first := by
      by_contra improper
      have shorter : (follow here up directory first).length ≤ directory.length :=
        length_follow_le_of_not_proper improper
      omega
    refine List.forall_mem_cons.mpr ⟨proper, ih (follow here up directory first) ?_⟩
    rw [follow_of_proper proper] at deep ⊢
    rw [List.length_append, List.length_singleton]
    omega

theorem confined_nil : Confined sep here up [] := by
  intro directory
  simp [lookup, follow, pieces]

theorem confined_iff : Confined sep here up path ↔
    ∀ segment ∈ pieces sep path, Proper here up segment := by
  by_cases empty : path = []
  · rw [empty]
    exact iff_of_true confined_nil (by simp [pieces])
  · simp only [Confined, pieces, if_neg empty]
    constructor
    · intro confined
      have fromRoot := confined []
      rw [lookup, ite_self, List.nil_append] at fromRoot
      apply proper_of_length_foldl_follow []
      simp [fromRoot]
    · intro proper directory
      have relative : path.head? ≠ some sep := by
        rw [ne_eq, Segments.head?_eq_sep_iff empty]
        intro first
        exact (proper [] (List.mem_of_mem_head? first)).nonempty rfl
      rw [lookup, if_neg relative, foldl_follow_of_proper proper]

theorem confined_below_iff : Confined sep here up (root ++ sep :: suffix) ↔
    (∀ segment ∈ root.splitOn sep, Proper here up segment) ∧
      ∀ segment ∈ suffix.splitOn sep, Proper here up segment := by
  have nonempty : root ++ sep :: suffix ≠ [] := by simp
  rw [confined_iff, pieces, if_neg nonempty, List.splitOn_append_cons_self, List.forall_mem_append]

theorem confined_iff_of_ne_nil (nonempty : path ≠ []) : Confined sep here up path ↔
    ∀ segment ∈ path.splitOn sep, Proper here up segment := by
  rw [confined_iff, pieces, if_neg nonempty]

end FastModManager.Foundation.PathWalk
