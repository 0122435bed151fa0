import Mathlib.Data.List.Basic

universe u

namespace FastModManager.Foundation.Segments

variable {α : Type u} {sep : α} {text segment : List α}

section Split

variable [DecidableEq α]

theorem sep_not_mem : ∀ segment ∈ text.splitOn sep, sep ∉ segment := by
  induction text with
  | nil =>
    intro segment member
    rw [List.splitOn_nil, List.mem_singleton] at member
    rw [member]
    exact List.not_mem_nil
  | cons head tail ih =>
    rw [List.splitOn_cons_eq_if_modifyHead]
    obtain ⟨first, rest, split⟩ := List.exists_cons_of_ne_nil (List.splitOn_ne_nil sep tail)
    rw [split] at ih ⊢
    obtain ⟨firstFree, restFree⟩ := List.forall_mem_cons.mp ih
    by_cases same : head = sep
    · rw [if_pos (beq_iff_eq.mpr same), List.forall_mem_cons]
      exact ⟨List.not_mem_nil, ih⟩
    · rw [if_neg (mt beq_iff_eq.mp same), List.modifyHead_cons, List.forall_mem_cons]
      exact ⟨List.not_mem_cons_of_ne_of_not_mem (Ne.symm same) firstFree, restFree⟩

theorem head?_splitOn : (text.splitOn sep).head? = some (text.takeWhile (· ≠ sep)) := by
  induction text with
  | nil => rfl
  | cons head tail ih =>
    rw [List.splitOn_cons_eq_if_modifyHead]
    by_cases same : head = sep
    · simp [same]
    · simp [same, ih]

theorem head?_eq_sep_iff (nonempty : text ≠ []) :
    text.head? = some sep ↔ (text.splitOn sep).head? = some [] := by
  obtain ⟨head, tail, rfl⟩ := List.exists_cons_of_ne_nil nonempty
  rw [head?_splitOn]
  by_cases same : head = sep
  · simp [same]
  · simp [same]

end Split

section Places

theorem placed_of_mem {segments : List (List α)} (member : segment ∈ segments) :
    [sep].intercalate segments = segment ∨ segment ++ [sep] <+: [sep].intercalate segments ∨
      sep :: segment <:+ [sep].intercalate segments ∨
        sep :: (segment ++ [sep]) <:+: [sep].intercalate segments := by
  induction segments with
  | nil => cases member
  | cons first rest ih =>
    cases rest with
    | nil =>
      rw [List.mem_singleton.mp member]
      exact .inl List.intercalate_singleton
    | cons second rest =>
      rw [List.intercalate_cons_cons]
      rcases List.mem_cons.mp member with rfl | later
      · exact .inr (.inl (List.prefix_append _ _))
      · rcases ih later with whole | ⟨after, start⟩ | ⟨before, ending⟩ | ⟨before, after, inner⟩
        · exact .inr (.inr (.inl ⟨first, by simp [whole]⟩))
        · exact .inr (.inr (.inr ⟨first, after, by simp [← start]⟩))
        · exact .inr (.inr (.inl ⟨first ++ [sep] ++ before, by simp [← ending]⟩))
        · exact .inr (.inr (.inr ⟨first ++ [sep] ++ before, after, by simp [← inner]⟩))

variable [DecidableEq α]

theorem mem_splitOn_iff (free : sep ∉ segment) :
    segment ∈ text.splitOn sep ↔
      text = segment ∨ segment ++ [sep] <+: text ∨ sep :: segment <:+ text ∨
        sep :: (segment ++ [sep]) <:+: text := by
  constructor
  · intro member
    have joined : [sep].intercalate (text.splitOn sep) = text := List.intercalate_splitOn sep
    rw [← joined]
    exact placed_of_mem member
  · have single : segment.splitOn sep = [segment] := List.splitOn_eq_singleton free
    rintro (rfl | ⟨after, rfl⟩ | ⟨before, rfl⟩ | ⟨before, after, rfl⟩)
    · rw [single]
      exact List.mem_singleton_self _
    · rw [List.append_assoc, List.singleton_append, List.splitOn_append_cons_self, single]
      exact List.mem_cons_self
    · rw [List.splitOn_append_cons_self, single]
      exact List.mem_append_right _ (List.mem_singleton_self _)
    · rw [List.append_assoc, List.cons_append, List.append_assoc, List.singleton_append,
        List.splitOn_append_cons_self, List.splitOn_append_cons_self, single]
      exact List.mem_append_right _ List.mem_cons_self

theorem infix_of_mem_splitOn (member : segment ∈ text.splitOn sep) : segment <:+: text := by
  rcases (mem_splitOn_iff (sep_not_mem segment member)).mp member with
    rfl | start | ending | inner
  · exact List.infix_rfl
  · exact ((List.prefix_append segment [sep]).trans start).isInfix
  · exact ((List.suffix_cons sep segment).trans ending).isInfix
  · exact ((List.prefix_append segment [sep]).isInfix.trans
      (List.suffix_cons sep (segment ++ [sep])).isInfix).trans inner

end Places

section Join

def join (sep : α) (text segment : List α) : List α :=
  (if text ≠ [] then text ++ [sep] else text) ++ segment

theorem foldl_join_of_ne_nil {segments : List (List α)} :
    ∀ {text : List α}, text ≠ [] →
      segments.foldl (join sep) text = [sep].intercalate (text :: segments) := by
  induction segments with
  | nil => intro text _; exact List.intercalate_singleton.symm
  | cons first rest ih =>
    intro text nonempty
    have joined : join sep text first = text ++ [sep] ++ first := by rw [join, if_pos nonempty]
    rw [List.foldl_cons, joined, ih (by simp)]
    cases rest with
    | nil => simp
    | cons second rest => simp [List.intercalate_cons_cons]

theorem foldl_join {segments : List (List α)} (nonempty : ∀ segment ∈ segments, segment ≠ []) :
    segments.foldl (join sep) [] = [sep].intercalate segments := by
  cases segments with
  | nil => rfl
  | cons first rest =>
    have joined : join sep [] first = first := by rw [join, if_neg (not_not.mpr rfl), List.nil_append]
    rw [List.foldl_cons, joined]
    exact foldl_join_of_ne_nil (nonempty first List.mem_cons_self)

theorem mem_intercalate {segments : List (List α)} {a : α}
    (member : a ∈ [sep].intercalate segments) : a = sep ∨ ∃ segment ∈ segments, a ∈ segment := by
  induction segments with
  | nil => cases member
  | cons first rest ih =>
    cases rest with
    | nil =>
      rw [List.intercalate_singleton] at member
      exact .inr ⟨first, List.mem_cons_self, member⟩
    | cons second rest =>
      rw [List.intercalate_cons_cons, List.mem_append, List.mem_append, List.mem_singleton] at member
      rcases member with (inFirst | same) | inRest
      · exact .inr ⟨first, List.mem_cons_self, inFirst⟩
      · exact .inl same
      · apply (ih inRest).imp_right
        rintro ⟨segment, later, inside⟩
        exact ⟨segment, List.mem_cons_of_mem first later, inside⟩

theorem intercalate_append {left right : List (List α)} (leftNonempty : left ≠ [])
    (rightNonempty : right ≠ []) :
    [sep].intercalate (left ++ right) =
      [sep].intercalate left ++ sep :: [sep].intercalate right := by
  induction left with
  | nil => exact absurd rfl leftNonempty
  | cons first rest ih =>
    cases rest with
    | nil =>
      obtain ⟨second, others, rfl⟩ := List.exists_cons_of_ne_nil rightNonempty
      simp [List.intercalate_cons_cons]
    | cons second rest =>
      rw [List.cons_append, List.cons_append, List.intercalate_cons_cons, ← List.cons_append,
        ih (List.cons_ne_nil _ _), List.intercalate_cons_cons]
      simp

end Join

section Pieces

variable [DecidableEq α]

def pieces (sep : α) (text : List α) : List (List α) := if text = [] then [] else text.splitOn sep

theorem intercalate_pieces : [sep].intercalate (pieces sep text) = text := by
  rw [pieces]
  split
  · rename_i empty
    rw [empty, List.intercalate_nil]
  · exact List.intercalate_splitOn sep

theorem pieces_injective : Function.Injective (pieces sep) := by
  have joined : Function.LeftInverse ([sep].intercalate) (pieces sep) := fun _ => intercalate_pieces
  exact joined.injective

theorem splitOn_prefix_iff {root path : List α} :
    root.splitOn sep <+: path.splitOn sep ↔ path = root ∨ ∃ suffix, path = root ++ sep :: suffix := by
  constructor
  · rintro ⟨rest, split⟩
    have joined : [sep].intercalate (root.splitOn sep ++ rest) = path := by
      rw [split]
      exact List.intercalate_splitOn sep
    by_cases exact : rest = []
    · rw [exact, List.append_nil, List.intercalate_splitOn] at joined
      exact .inl joined.symm
    · rw [intercalate_append (List.splitOn_ne_nil sep root) exact, List.intercalate_splitOn] at joined
      exact .inr ⟨_, joined.symm⟩
  · rintro (rfl | ⟨suffix, rfl⟩)
    · exact List.prefix_rfl
    · rw [List.splitOn_append_cons_self]
      exact List.prefix_append _ _

end Pieces

end FastModManager.Foundation.Segments
