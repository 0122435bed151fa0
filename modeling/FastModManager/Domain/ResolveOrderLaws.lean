import FastModManager.Domain.CycleSearchLaws

namespace FastModManager.Domain.PackageDependencyGraph

open Foundation

def predecessors (adjacency : AdjacencyList) (emitted : List PackageIndex)
    (package : PackageIndex) :
    Finset PackageIndex :=
  (Finset.range adjacency.length).filter fun source =>
    package ∈ children adjacency source ∧ source ∉ emitted

theorem mem_predecessors {adjacency : AdjacencyList} {emitted : List PackageIndex}
    {source package : PackageIndex} :
    source ∈ predecessors adjacency emitted package ↔
      Edge adjacency source package ∧ source ∉ emitted := by
  simp only [predecessors, Finset.mem_filter, Finset.mem_range, Edge]
  exact ⟨And.right, fun h => ⟨Edge.source_lt h.1, h⟩⟩

theorem predecessors_snoc (adjacency : AdjacencyList) (emitted : List PackageIndex)
    (source package : PackageIndex) :
    predecessors adjacency (emitted ++ [source]) package =
      (predecessors adjacency emitted package).erase source := by
  ext other
  simp only [mem_predecessors, Finset.mem_erase, List.mem_append, List.mem_singleton, not_or]
  tauto

theorem card_predecessors_snoc {adjacency : AdjacencyList} {emitted : List PackageIndex}
    {package : PackageIndex} (fresh : package ∉ emitted) (target : PackageIndex) :
    (predecessors adjacency (emitted ++ [package]) target).card =
      if target ∈ children adjacency package then (predecessors adjacency emitted target).card - 1
      else (predecessors adjacency emitted target).card := by
  rw [predecessors_snoc]
  split
  · rename_i step
    exact Finset.card_erase_of_mem (mem_predecessors.mpr ⟨step, fresh⟩)
  · rename_i step
    rw [Finset.erase_eq_of_notMem fun h => step (mem_predecessors.mp h).1]

structure CountsEdges (adjacency : AdjacencyList) (indegrees : List Nat) : Prop where
  length : indegrees.length = adjacency.length
  nodup : ∀ package, (children adjacency package).Nodup
  indegree : ∀ package < adjacency.length,
    indegrees[package]? = some (predecessors adjacency [] package).card

theorem releaseDependent_of_pos {ready : Finset PackageIndex} {indegrees : List Nat}
    {dependent count : Nat} (indegree : indegrees[dependent]? = some (count + 1)) :
    releaseDependent (ready, indegrees) dependent =
      .ok (if count = 0 then insert dependent ready else ready, indegrees.set dependent count) := by
  have inside := (List.getElem?_eq_some_iff.mp indegree).1
  simp only [releaseDependent, checkedAt_eq_ok.mpr indegree, checkedSet_of_lt _ inside,
    Checked.ok_bind, decrement, Nat.add_one_ne_zero, if_false, Nat.add_sub_cancel]
  rfl

theorem foldlM_releaseDependent {targets : List PackageIndex} (nodup : targets.Nodup)
    (ready : Finset PackageIndex) (indegrees : List Nat)
    (positive : ∀ target ∈ targets, ∃ count, indegrees[target]? = some (count + 1)) :
    ∃ ready' indegrees', targets.foldlM releaseDependent (ready, indegrees) =
        .ok (ready', indegrees') ∧
      indegrees'.length = indegrees.length ∧
      (∀ package : Nat, indegrees'[package]? =
        if package ∈ targets then indegrees[package]?.map (· - 1) else indegrees[package]?) ∧
      ∀ package, package ∈ ready' ↔
        package ∈ ready ∨ (package ∈ targets ∧ indegrees[package]? = some 1) := by
  induction targets generalizing ready indegrees with
  | nil => exact ⟨ready, indegrees, rfl, rfl, by simp, by simp⟩
  | cons target targets ih =>
    obtain ⟨fresh, nodup⟩ := List.nodup_cons.mp nodup
    obtain ⟨count, indegree⟩ := positive target (by simp)
    have inside := (List.getElem?_eq_some_iff.mp indegree).1
    have others : ∀ other ∈ targets, (indegrees.set target count)[other]? = indegrees[other]? :=
      fun other h => List.getElem?_set_ne (by rintro rfl; exact fresh h)
    obtain ⟨ready', indegrees', ran, length, values, members⟩ :=
      ih nodup (if count = 0 then insert target ready else ready) (indegrees.set target count)
        (fun other h => by rw [others other h]; exact positive other (List.mem_cons_of_mem _ h))
    refine ⟨ready', indegrees', ?_, by simpa using length, ?_, ?_⟩
    · rw [List.foldlM_cons, releaseDependent_of_pos indegree, Checked.ok_bind, ran]
    · intro package
      rw [values]
      by_cases same : package = target
      · subst same
        simp [fresh, indegree, List.getElem?_set_self inside]
      · simp [same, List.getElem?_set_ne (Ne.symm same)]
    · intro package
      rw [members]
      by_cases same : package = target
      · subst same
        by_cases zero : count = 0 <;> simp [fresh, indegree, zero]
      · have unchanged : (indegrees.set target count)[package]? = indegrees[package]? :=
          List.getElem?_set_ne (Ne.symm same)
        rw [unchanged]
        by_cases zero : count = 0 <;> simp [zero, same]

structure ResolveInvariant (enabledPackages : List PackageId) (adjacency : AdjacencyList)
    (emitted : List PackageIndex) (state : ResolveState) : Prop where
  length : state.indegrees.length = adjacency.length
  indegree : ∀ package < adjacency.length,
    state.indegrees[package]? = some (predecessors adjacency emitted package).card
  ready_iff : ∀ package, package ∈ state.ready ↔
    ReadyAfter (Edge adjacency) (List.range adjacency.length) emitted package
  resolved : emitted.map (enabledPackages[·]?) = state.resolvedOrder.map some
  nodup : emitted.Nodup
  inside : emitted ⊆ List.range adjacency.length
  greedy : Greedy (Edge adjacency) (List.range adjacency.length) emitted

theorem readyAfter_iff {adjacency : AdjacencyList} {emitted : List PackageIndex}
    {package : PackageIndex} :
    ReadyAfter (Edge adjacency) (List.range adjacency.length) emitted package ↔
      package < adjacency.length ∧ package ∉ emitted ∧
        predecessors adjacency emitted package = ∅ := by
  simp only [ReadyAfter, List.mem_range, Finset.eq_empty_iff_forall_notMem, mem_predecessors]
  constructor
  · rintro ⟨inside, fresh, earlier⟩
    exact ⟨inside, fresh, fun source h => h.2 (earlier source h.1.source_lt h.1)⟩
  · rintro ⟨inside, fresh, none⟩
    exact ⟨inside, fresh, fun source _ step => by_contra fun h => none source ⟨step, h⟩⟩

theorem ResolveInvariant.initial {enabledPackages : List PackageId} {adjacency : AdjacencyList}
    {indegrees : List Nat} (counts : CountsEdges adjacency indegrees) :
    ResolveInvariant enabledPackages adjacency []
      { ready := (Finset.range indegrees.length).filter fun index => indegrees[index]? = some 0
        indegrees
        resolvedOrder := [] } where
  length := counts.length
  indegree := counts.indegree
  ready_iff := by
    intro package
    simp only [readyAfter_iff, Finset.mem_filter, Finset.mem_range, counts.length,
      List.not_mem_nil, not_false_eq_true, true_and]
    constructor
    · rintro ⟨inside, zero⟩
      rw [counts.indegree package inside, Option.some.injEq, Finset.card_eq_zero] at zero
      exact ⟨inside, zero⟩
    · rintro ⟨inside, none⟩
      exact ⟨inside, by rw [counts.indegree package inside, none]; rfl⟩
  resolved := rfl
  nodup := List.nodup_nil
  inside := List.nil_subset _
  greedy := Greedy.nil _ _

theorem ResolveInvariant.emitted_length {enabledPackages : List PackageId}
    {adjacency : AdjacencyList} {emitted : List PackageIndex} {state : ResolveState}
    (inv : ResolveInvariant enabledPackages adjacency emitted state) :
    state.resolvedOrder.length = emitted.length ∧ emitted.length ≤ adjacency.length := by
  constructor
  · simpa using (congrArg List.length inv.resolved).symm
  · simpa using (inv.nodup.subperm inv.inside).length_le

theorem ResolveInvariant.indegree_pos {enabledPackages : List PackageId}
    {adjacency : AdjacencyList} {emitted : List PackageIndex} {state : ResolveState}
    (inv : ResolveInvariant enabledPackages adjacency emitted state)
    (valid : ValidAdjacency enabledPackages.length adjacency) {package : PackageIndex}
    (fresh : package ∉ emitted) :
    ∀ target ∈ children adjacency package,
      ∃ count, state.indegrees[target]? = some (count + 1) := by
  intro target step
  have targetLt : target < adjacency.length := valid.length ▸ valid.target_lt step
  have waits := Finset.card_pos.mpr ⟨package, mem_predecessors.mpr ⟨step, fresh⟩⟩
  refine ⟨(predecessors adjacency emitted target).card - 1, ?_⟩
  rw [inv.indegree target targetLt, Nat.sub_add_cancel waits]

theorem readyAfter_snoc_iff {adjacency : AdjacencyList} {emitted : List PackageIndex}
    {package target : PackageIndex}
    (isReady : ReadyAfter (Edge adjacency) (List.range adjacency.length) emitted package)
    (greedy : Greedy (Edge adjacency) (List.range adjacency.length) emitted)
    (targetLt : target ∈ children adjacency package → target < adjacency.length) :
    ReadyAfter (Edge adjacency) (List.range adjacency.length) (emitted ++ [package]) target ↔
      (target ≠ package ∧
        ReadyAfter (Edge adjacency) (List.range adjacency.length) emitted target) ∨
      (target ∈ children adjacency package ∧ (predecessors adjacency emitted target).card = 1) := by
  obtain ⟨inside, fresh, none⟩ := readyAfter_iff.mp isReady
  simp only [readyAfter_iff, List.mem_append, List.mem_singleton, not_or]
  rw [← Finset.card_eq_zero, card_predecessors_snoc fresh, ← Finset.card_eq_zero]
  by_cases step : target ∈ children adjacency package
  · have waits : 0 < (predecessors adjacency emitted target).card :=
      Finset.card_pos.mpr ⟨package, mem_predecessors.mpr ⟨step, fresh⟩⟩
    have later : target ∉ emitted := fun out =>
      fresh (greedy.predecessor_mem out (List.mem_range.mpr inside) step)
    have differs : target ≠ package := by
      rintro rfl
      rw [none, Finset.card_empty] at waits
      exact waits.false
    simp only [step, if_true, targetLt step, later, differs, not_false_eq_true, true_and, ne_eq]
    omega
  · simp only [step, if_false, false_and, or_false]
    tauto

theorem resolveStep_spec {enabledPackages : List PackageId} {adjacency : AdjacencyList}
    (valid : ValidAdjacency enabledPackages.length adjacency)
    (nodup : ∀ package, (children adjacency package).Nodup) {emitted : List PackageIndex}
    {state : ResolveState} (inv : ResolveInvariant enabledPackages adjacency emitted state)
    (nonempty : state.ready.Nonempty) :
    ∃ next, resolveStep enabledPackages adjacency state = .ok (.inl next) ∧
      ResolveInvariant enabledPackages adjacency (emitted ++ [state.ready.min' nonempty]) next := by
  have isReady := (inv.ready_iff _).mp (state.ready.min'_mem nonempty)
  have isLeast : ∀ other ∈ state.ready, state.ready.min' nonempty ≤ other :=
    fun other h => state.ready.min'_le other h
  obtain ⟨inside, fresh, _⟩ := readyAfter_iff.mp isReady
  generalize chosen : state.ready.min' nonempty = package at *
  have targetLt : ∀ target ∈ children adjacency package, target < adjacency.length :=
    fun target step => valid.length ▸ valid.target_lt step
  obtain ⟨ready', indegrees', ran, length, values, members⟩ :=
    foldlM_releaseDependent (nodup package) (state.ready.erase package) state.indegrees
      (inv.indegree_pos valid fresh)
  have packageLt : package < enabledPackages.length := valid.length ▸ inside
  have enabledAt := checkedAt_of_lt packageLt
  refine ⟨⟨ready', indegrees', state.resolvedOrder ++ [enabledPackages[package]]⟩, ?_, ?_⟩
  · rw [resolveStep, dif_pos nonempty]
    simp only [chosen, enabledAt, children_of_lt inside, Checked.ok_bind, ran]
    rfl
  · constructor
    · rw [length, inv.length]
    · intro target targetLt
      rw [values, inv.indegree target targetLt, card_predecessors_snoc fresh]
      split <;> rfl
    · intro target
      rw [members, Finset.mem_erase, inv.ready_iff,
        readyAfter_snoc_iff isReady inv.greedy (targetLt target)]
      refine or_congr_right (and_congr_right fun step => ?_)
      rw [inv.indegree target (targetLt target step), Option.some.injEq]
    · simp [inv.resolved, List.getElem?_eq_getElem packageLt]
    · exact inv.nodup.append (List.nodup_singleton _) (List.disjoint_singleton.mpr fresh)
    · exact List.append_subset.mpr ⟨inv.inside, by simpa using inside⟩
    · exact inv.greedy.snoc isReady fun other h => isLeast other ((inv.ready_iff other).mpr h)

structure ResolvedIndexes (enabledPackages : List PackageId) (adjacency : AdjacencyList)
    (order : List PackageId) (emitted : List PackageIndex) : Prop where
  names : emitted.map (enabledPackages[·]?) = order.map some
  nodup : emitted.Nodup
  inside : emitted ⊆ List.range adjacency.length
  greedy : Greedy (Edge adjacency) (List.range adjacency.length) emitted
  stuck : ∀ package, ¬ ReadyAfter (Edge adjacency) (List.range adjacency.length) emitted package

theorem ResolveInvariant.finished {enabledPackages : List PackageId} {adjacency : AdjacencyList}
    {emitted : List PackageIndex} {state : ResolveState}
    (inv : ResolveInvariant enabledPackages adjacency emitted state)
    (empty : ¬ state.ready.Nonempty) :
    ResolvedIndexes enabledPackages adjacency state.resolvedOrder emitted where
  names := inv.resolved
  nodup := inv.nodup
  inside := inv.inside
  greedy := inv.greedy
  stuck package isReady := empty ⟨package, (inv.ready_iff package).mpr isReady⟩

theorem ResolveInvariant.remaining_lt {enabledPackages : List PackageId}
    {adjacency : AdjacencyList} {emitted : List PackageIndex} {package : PackageIndex}
    {state next : ResolveState} (valid : ValidAdjacency enabledPackages.length adjacency)
    (inv : ResolveInvariant enabledPackages adjacency emitted state)
    (inv' : ResolveInvariant enabledPackages adjacency (emitted ++ [package]) next) :
    enabledPackages.length - next.resolvedOrder.length <
      enabledPackages.length - state.resolvedOrder.length := by
  have before := inv.emitted_length
  have after := inv'.emitted_length
  rw [valid.length] at *
  simp only [List.length_append, List.length_singleton] at after
  omega

theorem resolveOrder_spec {enabledPackages : List PackageId} {adjacency : AdjacencyList}
    {indegrees : List Nat} (valid : ValidAdjacency enabledPackages.length adjacency)
    (counts : CountsEdges adjacency indegrees) :
    ∃ order, resolveOrder enabledPackages adjacency indegrees = .ok order ∧
      ∃ emitted, ResolvedIndexes enabledPackages adjacency order emitted := by
  refine iterate_total
    (fun s => ∃ emitted, ResolveInvariant enabledPackages adjacency emitted s)
    (fun s => enabledPackages.length - s.resolvedOrder.length) ?_
    ⟨[], ResolveInvariant.initial counts⟩ (by simp)
  rintro state ⟨emitted, inv⟩
  by_cases nonempty : state.ready.Nonempty
  · left
    obtain ⟨next, ran, inv'⟩ := resolveStep_spec valid counts.nodup inv nonempty
    exact ⟨next, ran, ⟨_, inv'⟩, inv.remaining_lt valid inv'⟩
  · right
    exact ⟨state.resolvedOrder, by rw [resolveStep, dif_neg nonempty]; rfl, emitted,
      inv.finished nonempty⟩

theorem ResolvedIndexes.mem_iff {enabledPackages order : List PackageId}
    {adjacency : AdjacencyList} {emitted : List PackageIndex}
    (resolved : ResolvedIndexes enabledPackages adjacency order emitted) {package : PackageIndex} :
    package ∈ emitted ↔ package < adjacency.length ∧
      ¬ ∃ source, Relation.TransGen (Edge adjacency) source source ∧
        Relation.ReflTransGen (Edge adjacency) source package := by
  rw [resolved.greedy.mem_iff resolved.inside (fun step => List.mem_range.mpr step.source_lt)
    resolved.stuck, List.mem_range]

theorem ResolvedIndexes.perm {enabledPackages order : List PackageId} {adjacency : AdjacencyList}
    {emitted : List PackageIndex}
    (resolved : ResolvedIndexes enabledPackages adjacency order emitted)
    (acyclic : Acyclic (Edge adjacency)) : emitted.Perm (List.range adjacency.length) := by
  refine (resolved.nodup.subperm resolved.inside).perm_of_length_le ?_
  refine (List.nodup_range.subperm fun package inside => ?_).length_le
  exact resolved.mem_iff.mpr
    ⟨List.mem_range.mp inside, fun ⟨source, cycle, _⟩ => acyclic source cycle⟩

end FastModManager.Domain.PackageDependencyGraph
