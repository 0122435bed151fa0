import Mathlib.Logic.Relation
import Mathlib.Data.Finset.Basic
import Mathlib.Data.Set.Finite.Basic
import Mathlib.Order.WellFounded
import Mathlib.Data.List.Lex
import Mathlib.Data.List.Perm.Basic

universe u

namespace FastModManager.Foundation

open Relation

variable {α : Type u}

def Acyclic (edge : α → α → Prop) : Prop := ∀ a, ¬ TransGen edge a a

structure ClosedAcyclic (edge : α → α → Prop) (done : α → Prop) : Prop where
  closed : ∀ {a b}, done a → edge a b → done b
  acyclic : ∀ {a}, done a → ¬ TransGen edge a a

theorem ClosedAcyclic.reaches {edge : α → α → Prop} {done : α → Prop}
    (h : ClosedAcyclic edge done) {a b : α} (start : done a) (path : TransGen edge a b) :
    done b := by
  induction path with
  | single step => exact h.closed start step
  | tail _ step ih => exact h.closed ih step

theorem ClosedAcyclic.empty (edge : α → α → Prop) : ClosedAcyclic edge fun _ => False :=
  ⟨False.elim, False.elim⟩

theorem ClosedAcyclic.finish {edge : α → α → Prop} {done : α → Prop}
    (h : ClosedAcyclic edge done) {v : α} (fresh : ¬ done v) (children : ∀ b, edge v b → done b) :
    ClosedAcyclic edge fun a => done a ∨ a = v where
  closed := by
    rintro a b (old | rfl) step
    · exact .inl (h.closed old step)
    · exact .inl (children b step)
  acyclic := by
    rintro a (old | rfl) cycle
    · exact h.acyclic old cycle
    · obtain ⟨b, step, back⟩ := TransGen.head'_iff.mp cycle
      -- the cycle leaves `a` into the closed set, and can never come back to `a`
      rcases reflTransGen_iff_eq_or_transGen.mp back with rfl | back
      · exact fresh (children _ step)
      · exact fresh (h.reaches (children b step) back)

theorem ClosedAcyclic.acyclic_of_all {edge : α → α → Prop} {done : α → Prop}
    (h : ClosedAcyclic edge done) (sources : ∀ {a b}, edge a b → done a) : Acyclic edge := by
  intro a cycle
  obtain ⟨b, step, _⟩ := TransGen.head'_iff.mp cycle
  exact h.acyclic (sources step) cycle

theorem Acyclic.exists_source {edge : α → α → Prop} (h : Acyclic edge) (vertices : Finset α)
    (nonempty : vertices.Nonempty) :
    ∃ v ∈ vertices, ∀ u ∈ vertices, ¬ edge u v := by
  let before (a b : vertices) : Prop := TransGen edge a b
  have : IsTrans vertices before := ⟨fun _ _ _ => TransGen.trans⟩
  have : Std.Irrefl before := ⟨fun a => h a⟩
  have wf : WellFounded before := Finite.wellFounded_of_trans_of_irrefl before
  obtain ⟨v, hv⟩ := nonempty
  obtain ⟨⟨least, inside⟩, _, minimal⟩ := wf.has_min Set.univ ⟨⟨v, hv⟩, trivial⟩
  exact ⟨least, inside, fun u hu step => minimal ⟨u, hu⟩ trivial (.single step)⟩

theorem Acyclic.comap {β : Type u} {edge : α → α → Prop} {edge' : β → β → Prop} (f : β → α)
    (image : ∀ {a b}, edge' a b → edge (f a) (f b)) (h : Acyclic edge) : Acyclic edge' := by
  intro b cycle
  exact h (f b) (cycle.lift f fun _ _ => image)

theorem acyclic_of_increasing {edge : α → α → Prop} (rank : α → Nat)
    (increases : ∀ {a b}, edge a b → rank a < rank b) : Acyclic edge := by
  intro a cycle
  have higher : ∀ {b}, TransGen edge a b → rank a < rank b := by
    intro b path
    induction path with
    | single step => exact increases step
    | tail _ step ih => exact ih.trans (increases step)
  exact (higher cycle).false

theorem exists_cycle_before {edge : α → α → Prop} {vertices : Finset α}
    (preceded : ∀ v ∈ vertices, ∃ u ∈ vertices, edge u v) {v : α} (member : v ∈ vertices) :
    ∃ a, TransGen edge a a ∧ ReflTransGen edge a v := by
  classical
  by_contra none
  let towards (a b : α) : Prop := edge a b ∧ ReflTransGen edge b v
  have acyclic : Acyclic towards := by
    intro a cycle
    obtain ⟨_, _, _, reaches⟩ := TransGen.tail'_iff.mp cycle
    exact none ⟨a, cycle.lift id fun _ _ => And.left, reaches⟩
  obtain ⟨source, inside, first⟩ := acyclic.exists_source
    (vertices.filter (ReflTransGen edge · v)) ⟨v, Finset.mem_filter.mpr ⟨member, .refl⟩⟩
  obtain ⟨sourceIn, reaches⟩ := Finset.mem_filter.mp inside
  obtain ⟨u, uIn, step⟩ := preceded source sourceIn
  exact first u (Finset.mem_filter.mpr ⟨uIn, reaches.head step⟩) ⟨step, reaches⟩

theorem transGen_of_isChain {edge : α → α → Prop} {a b : α} {path : List α}
    (chain : (a :: path).IsChain edge) (last : (a :: path).getLast (by simp) = b)
    (long : path ≠ []) :
    TransGen edge a b := by
  induction path generalizing a with
  | nil => exact absurd rfl long
  | cons c path ih =>
    obtain ⟨step, rest⟩ := List.isChain_cons_cons.mp chain
    cases path with
    | nil => obtain rfl : c = b := by simpa using last
             exact .single step
    | cons d path => exact .head step (ih rest (by simpa using last) (by simp))

section TopologicalOrder

def Respects (edge : α → α → Prop) (order : List α) : Prop :=
  order.Pairwise fun earlier later => ¬ edge later earlier

theorem respects_iff_idxOf [DecidableEq α] {edge : α → α → Prop} {order : List α}
    (nodup : order.Nodup) (inside : ∀ {a b}, edge a b → a ∈ order ∧ b ∈ order)
    (irreflexive : ∀ a, ¬ edge a a) :
    Respects edge order ↔ ∀ a b, edge a b → order.idxOf a < order.idxOf b := by
  constructor
  · intro respects a b step
    obtain ⟨ha, hb⟩ := inside step
    have hia := List.idxOf_lt_length_iff.mpr ha
    have hib := List.idxOf_lt_length_iff.mpr hb
    rcases Nat.lt_trichotomy (order.idxOf a) (order.idxOf b) with less | same | greater
    · exact less
    · obtain rfl := (List.idxOf_inj ha).mp same
      exact absurd step (irreflexive a)
    · have := List.pairwise_iff_getElem.mp respects _ _ hib hia greater
      simp only [List.getElem_idxOf] at this
      exact absurd step this
  · intro before
    refine List.pairwise_iff_getElem.mpr fun i j hi hj less step => ?_
    have := before _ _ step
    rw [nodup.idxOf_getElem, nodup.idxOf_getElem] at this
    omega

def ReadyAfter (edge : α → α → Prop) (vertices emitted : List α) (v : α) : Prop :=
  v ∈ vertices ∧ v ∉ emitted ∧ ∀ u ∈ vertices, edge u v → u ∈ emitted

/-- Every element is the least one that could have come at its place. -/
def Greedy [LE α] (edge : α → α → Prop) (vertices order : List α) : Prop :=
  ∀ before v after, order = before ++ v :: after →
    ReadyAfter edge vertices before v ∧ ∀ w, ReadyAfter edge vertices before w → v ≤ w

theorem Greedy.nil [LE α] (edge : α → α → Prop) (vertices : List α) : Greedy edge vertices [] := by
  intro before v after split
  simp at split

theorem Greedy.snoc [LE α] {edge : α → α → Prop} {vertices order : List α} {v : α}
    (greedy : Greedy edge vertices order) (ready : ReadyAfter edge vertices order v)
    (least : ∀ w, ReadyAfter edge vertices order w → v ≤ w) :
    Greedy edge vertices (order ++ [v]) := by
  intro before w after split
  rcases List.eq_nil_or_concat' after with rfl | ⟨after, last, rfl⟩
  · obtain ⟨rfl, same⟩ := List.append_inj' split rfl
    obtain rfl : v = w := by simpa using same
    exact ⟨ready, least⟩
  · have split' : order ++ [v] = (before ++ w :: after) ++ [last] := by simpa using split
    exact greedy before w after (List.append_inj' split' rfl).1

theorem Greedy.predecessor_mem [LE α] {edge : α → α → Prop} {vertices order : List α}
    (greedy : Greedy edge vertices order) {u v : α} (emitted : v ∈ order) (inside : u ∈ vertices)
    (step : edge u v) : u ∈ order := by
  obtain ⟨before, after, split⟩ := List.append_of_mem emitted
  obtain ⟨⟨_, _, earlier⟩, _⟩ := greedy before v after split
  rw [split]
  exact List.mem_append_left _ (earlier u inside step)

theorem Greedy.respects [LE α] {edge : α → α → Prop} {vertices order : List α}
    (greedy : Greedy edge vertices order) (nodup : order.Nodup) (inside : order ⊆ vertices) :
    Respects edge order := by
  refine List.pairwise_iff_getElem.mpr fun i j hi hj less step => ?_
  have split : order = order.take i ++ order[i] :: order.drop (i + 1) := by
    rw [List.getElem_cons_drop, List.take_append_drop]
  obtain ⟨⟨_, _, earlier⟩, _⟩ := greedy _ _ _ split
  have emitted := earlier _ (inside (List.getElem_mem hj)) step
  obtain ⟨k, hk, same⟩ := List.mem_iff_getElem.mp emitted
  rw [List.getElem_take] at same
  have := (nodup.getElem_inj_iff).mp same
  rw [List.length_take] at hk
  omega

theorem Respects.readyAfter {edge : α → α → Prop} {vertices before after : List α} {v : α}
    (respects : Respects edge (before ++ v :: after)) (irreflexive : ∀ a, ¬ edge a a)
    (nodup : (before ++ v :: after).Nodup) (perm : (before ++ v :: after).Perm vertices) :
    ReadyAfter edge vertices before v := by
  refine ⟨perm.subset (by simp), ?_, ?_⟩
  · intro emitted
    exact List.disjoint_of_nodup_append nodup emitted (by simp)
  · intro u hu step
    rcases List.mem_append.mp (perm.symm.subset hu) with emitted | later
    · exact emitted
    · have tail := (List.pairwise_append.mp respects).2.1
      rcases List.mem_cons.mp later with rfl | later
      · exact absurd step (irreflexive u)
      · exact absurd step ((List.pairwise_cons.mp tail).1 u later)

/-- The greedy topological order is the least of all topological orders of its vertices. -/
theorem Greedy.le [LinearOrder α] {edge : α → α → Prop} {vertices order other : List α}
    (greedy : Greedy edge vertices order) (irreflexive : ∀ a, ¬ edge a a)
    (orderPerm : order.Perm vertices) (nodup : other.Nodup) (perm : other.Perm vertices)
    (respects : Respects edge other) : order ≤ other := by
  suffices step : ∀ rest before otherRest : List α, order = before ++ rest →
      other = before ++ otherRest → rest.length = otherRest.length → rest ≤ otherRest from
    step order [] other rfl rfl (orderPerm.length_eq.trans perm.length_eq.symm)
  -- both orders agree on `before`; the greedy one continues with the smaller vertex
  intro rest
  induction rest with
  | nil =>
    intro before otherRest _ _ length
    rw [List.length_eq_zero_iff.mp length.symm]
  | cons v rest ih =>
    intro before otherRest split otherSplit length
    cases otherRest with
    | nil => simp at length
    | cons w otherRest =>
      obtain ⟨_, least⟩ := greedy before v rest split
      have ready : ReadyAfter edge vertices before w := by
        subst otherSplit
        exact respects.readyAfter irreflexive nodup perm
      rcases (least w ready).lt_or_eq with less | rfl
      · exact le_of_lt (List.Lex.rel less)
      · exact List.cons_le_cons v (ih (before ++ [v]) otherRest (by simpa using split)
          (by simpa using otherSplit) (by simpa using length))

theorem Greedy.of_snoc [LE α] {edge : α → α → Prop} {vertices order : List α} {v : α}
    (greedy : Greedy edge vertices (order ++ [v])) : Greedy edge vertices order := by
  intro before w after split
  exact greedy before w (after ++ [v]) (by simp [split])

theorem Greedy.closedAcyclic [LE α] {edge : α → α → Prop} {vertices order : List α}
    (greedy : Greedy edge vertices order) (sources : ∀ {u v}, edge u v → u ∈ vertices) :
    ClosedAcyclic (fun later earlier => edge earlier later) (· ∈ order) := by
  induction order using List.reverseRecOn with
  | nil => exact ⟨fun member => absurd member List.not_mem_nil,
      fun member => absurd member List.not_mem_nil⟩
  | append_singleton order v ih =>
    obtain ⟨⟨_, fresh, earlier⟩, _⟩ := greedy order v [] rfl
    have extended := (ih greedy.of_snoc).finish fresh fun u step => earlier u (sources step) step
    simpa only [List.mem_append, List.mem_singleton] using extended

theorem Greedy.mem_iff [LE α] {edge : α → α → Prop} {vertices order : List α}
    (greedy : Greedy edge vertices order) (inside : order ⊆ vertices)
    (sources : ∀ {u v}, edge u v → u ∈ vertices)
    (stuck : ∀ v, ¬ ReadyAfter edge vertices order v) {v : α} :
    v ∈ order ↔ v ∈ vertices ∧ ¬ ∃ a, TransGen edge a a ∧ ReflTransGen edge a v := by
  classical
  have done := greedy.closedAcyclic sources
  constructor
  · refine fun member => ⟨inside member, ?_⟩
    rintro ⟨a, cycle, path⟩
    have among : a ∈ order := by
      rcases reflTransGen_iff_eq_or_transGen.mp path with rfl | path
      · exact member
      · exact done.reaches member (transGen_swap.mpr path)
    exact done.acyclic among (transGen_swap.mpr cycle)
  · rintro ⟨isVertex, free⟩
    by_contra left
    have preceded : ∀ w ∈ vertices.toFinset.filter (· ∉ order),
        ∃ u ∈ vertices.toFinset.filter (· ∉ order), edge u w := by
      intro w remains
      obtain ⟨wIn, out⟩ := Finset.mem_filter.mp remains
      by_contra alone
      refine stuck w ⟨List.mem_toFinset.mp wIn, out, fun u uIn step => ?_⟩
      by_contra uOut
      exact alone ⟨u, Finset.mem_filter.mpr ⟨List.mem_toFinset.mpr uIn, uOut⟩, step⟩
    exact free (exists_cycle_before preceded
      (Finset.mem_filter.mpr ⟨List.mem_toFinset.mpr isVertex, left⟩))

theorem Respects.insert_sink {edge : α → α → Prop} {sink : α} {before after : List α}
    (respects : Respects (fun a b => edge a b ∧ a ≠ sink ∧ b ≠ sink) (before ++ after))
    (fresh : sink ∉ before ++ after) (leaf : ∀ b, ¬ edge sink b)
    (early : ∀ a ∈ after, ¬ edge a sink) : Respects edge (before ++ sink :: after) := by
  have differs : ∀ a ∈ before ++ after, a ≠ sink := by
    rintro a member rfl
    exact fresh member
  have rest : Respects edge (before ++ after) := by
    refine List.Pairwise.imp_of_mem ?_ respects
    intro earlier later inEarlier inLater free step
    exact free ⟨step, differs later inLater, differs earlier inEarlier⟩
  obtain ⟨first, second, across⟩ := List.pairwise_append.mp rest
  refine List.pairwise_append.mpr ⟨first, List.pairwise_cons.mpr ⟨early, second⟩, ?_⟩
  intro a inBefore b inAfter
  rcases List.mem_cons.mp inAfter with rfl | inAfter
  · exact leaf a
  · exact across a inBefore b inAfter

end TopologicalOrder

end FastModManager.Foundation
