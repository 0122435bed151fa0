import FastModManager.Foundation.Digraph
import FastModManager.Foundation.LexOrder
import Mathlib.Data.List.Chain

/-! Walks of a directed graph that stop where they first meet themselves, and the least of them. -/

universe u v

namespace FastModManager.Foundation

open Relation

variable {α : Type u} {β : Type v}

/-- A walk along `stem`, without a repetition, whose last step leads back into the stem. -/
structure IsLasso (edge : α → α → Prop) (stem : List α) (last : α) : Prop where
  nodup : stem.Nodup
  mem : last ∈ stem
  chain : (stem ++ [last]).IsChain edge

def loop [DecidableEq α] (stem : List α) (last : α) : List α :=
  stem.drop (stem.idxOf last) ++ [last]

section Walks

variable {edge : α → α → Prop} {done : α → Prop} {stem stem' : List α} {last last' vertex : α}

theorem IsLasso.reaches_last (lasso : IsLasso edge stem last) (member : vertex ∈ stem) :
    TransGen edge vertex last := by
  obtain ⟨before, after, rfl⟩ := List.append_of_mem member
  have chain := lasso.chain
  rw [List.append_assoc] at chain
  exact transGen_of_isChain chain.right_of_append (by simp) (by simp)

theorem IsLasso.exists_edge (lasso : IsLasso edge stem last) (member : vertex ∈ stem) :
    ∃ next, edge vertex next := by
  obtain ⟨next, step, _⟩ := TransGen.head'_iff.mp (lasso.reaches_last member)
  exact ⟨next, step⟩

theorem IsLasso.not_acyclic (lasso : IsLasso edge stem last) : ¬ Acyclic edge :=
  fun acyclic => acyclic last (lasso.reaches_last lasso.mem)

theorem IsLasso.not_done (lasso : IsLasso edge stem last) (closed : ClosedAcyclic edge done)
    (member : vertex ∈ stem ++ [last]) : ¬ done vertex := by
  intro reached
  have ended : done last := by
    rcases List.mem_append.mp member with inStem | atEnd
    · exact closed.reaches reached (lasso.reaches_last inStem)
    · rwa [← List.mem_singleton.mp atEnd]
  exact closed.acyclic ended (lasso.reaches_last lasso.mem)

theorem IsLasso.eq_of_isPrefix (lasso : IsLasso edge stem last) (other : IsLasso edge stem' last')
    (stops : stem' ++ [last'] <+: stem ++ [last]) : stem' ++ [last'] = stem ++ [last] := by
  rcases List.prefix_concat_iff.mp stops with same | earlier
  · exact same
  · have nodup := lasso.nodup.sublist earlier.sublist
    exact absurd rfl (List.nodup_append.mp nodup |>.2.2 last' other.mem last' (by simp))

theorem isLasso_map_iff {edge' : β → β → Prop} {name : β → α} {stem : List β} {last : β}
    (edges : ∀ a b, edge (name a) (name b) ↔ edge' a b)
    (injective : ∀ a ∈ stem, ∀ b, name a = name b → a = b) :
    IsLasso edge (stem.map name) (name last) ↔ IsLasso edge' stem last := by
  have chains : (stem.map name ++ [name last]).IsChain edge ↔ (stem ++ [last]).IsChain edge' := by
    have mapped : stem.map name ++ [name last] = (stem ++ [last]).map name := by simp
    simp only [mapped, List.isChain_map, edges]
  constructor
  · rintro ⟨nodup, mem, chain⟩
    obtain ⟨a, member, same⟩ := List.mem_map.mp mem
    obtain rfl := injective a member last same
    exact ⟨nodup.of_map, member, chains.mp chain⟩
  · rintro ⟨nodup, mem, chain⟩
    refine ⟨nodup.map_on fun a inStem b _ same => injective a inStem b same, ?_, chains.mpr chain⟩
    exact List.mem_map_of_mem mem

theorem loop_map [DecidableEq α] [DecidableEq β] {name : β → α} {stem : List β} {last : β}
    (injective : ∀ a ∈ stem, name a = name last → a = last) :
    loop (stem.map name) (name last) = (loop stem last).map name := by
  have position : (stem.map name).idxOf (name last) = stem.idxOf last := by
    induction stem with
    | nil => rfl
    | cons a stem ih =>
      by_cases same : a = last
      · simp [same]
      · have differs : name a ≠ name last := fun named => same (injective a (by simp) named)
        rw [List.map_cons, List.idxOf_cons_ne _ differs, List.idxOf_cons_ne _ same,
          ih fun b member => injective b (List.mem_cons_of_mem _ member)]
  simp [loop, position]

end Walks

section Least

variable [LinearOrder α] {edge : α → α → Prop} {done : α → Prop} {stem stem' : List α}
  {last last' source : α}

/-- An edge whose smaller alternatives are all done. -/
def LeastTurn (edge : α → α → Prop) (done : α → Prop) (source target : α) : Prop :=
  edge source target ∧ ∀ other, edge source other → other < target → done other

theorem isPrefix_of_leastTurns {walk walk' : List α}
    (turns : (source :: walk).IsChain (LeastTurn edge done))
    (chain : (source :: walk').IsChain edge) (fresh : ∀ vertex ∈ walk', ¬ done vertex)
    (less : walk' < walk) : walk' <+: walk := by
  induction walk generalizing source walk' with
  | nil => simp at less
  | cons target walk ih =>
    cases walk' with
    | nil => exact List.nil_prefix
    | cons other walk' =>
      obtain ⟨turn, turns⟩ := List.isChain_cons_cons.mp turns
      obtain ⟨step, chain⟩ := List.isChain_cons_cons.mp chain
      rcases List.cons_lt_cons_iff.mp less with first | ⟨rfl, tail⟩
      · exact absurd (turn.2 other step first) (fresh other (by simp))
      · exact (List.prefix_cons_inj other).mpr
          (ih turns chain (fun vertex h => fresh vertex (List.mem_cons_of_mem _ h)) tail)

/-- A lasso that passes over nothing but what is done is the least one. -/
theorem IsLasso.le_of_leastTurns (lasso : IsLasso edge stem last)
    (closed : ClosedAcyclic edge done) (start : ∀ first ∈ stem.head?, ∀ other < first, done other)
    (turns : (stem ++ [last]).IsChain (LeastTurn edge done)) (other : IsLasso edge stem' last') :
    stem ++ [last] ≤ stem' ++ [last'] := by
  by_contra notLe
  have less := not_le.mp notLe
  cases stem with
  | nil => exact absurd lasso.mem List.not_mem_nil
  | cons first stem =>
    cases stem' with
    | nil => exact absurd other.mem List.not_mem_nil
    | cons first' stem' =>
      have fresh : ∀ vertex ∈ first' :: stem' ++ [last'], ¬ done vertex :=
        fun vertex member => other.not_done closed member
      rcases List.cons_lt_cons_iff.mp less with smaller | ⟨rfl, tail⟩
      · exact fresh first' (by simp) (start first rfl first' smaller)
      · have stops := isPrefix_of_leastTurns turns other.chain
          (fun vertex member => fresh vertex (List.mem_cons_of_mem _ member)) tail
        exact less.ne (lasso.eq_of_isPrefix other ((List.prefix_cons_inj first').mpr stops))

end Least

section Ranked

variable [LinearOrder β] {edge : α → α → Prop} {rank : α → β} {stem stem' : List α} {last last' : α}

structure IsLeastLasso (rank : α → β) (edge : α → α → Prop) (stem : List α) (last : α) : Prop
    extends IsLasso edge stem last where
  least : ∀ {stem' last'}, IsLasso edge stem' last' →
    (stem ++ [last]).map rank ≤ (stem' ++ [last']).map rank

theorem IsLeastLasso.map_rank_eq (lasso : IsLeastLasso rank edge stem last)
    (other : IsLeastLasso rank edge stem' last') :
    (stem ++ [last]).map rank = (stem' ++ [last']).map rank :=
  le_antisymm (lasso.least other.toIsLasso) (other.least lasso.toIsLasso)

end Ranked

end FastModManager.Foundation
