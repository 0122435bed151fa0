import FastModManager.Domain.CycleSearchOrder
import FastModManager.Domain.DependencyCycles
import FastModManager.Domain.LoadOrderStability
import Mathlib.Data.Set.List

namespace FastModManager.Domain.PackageDependencyGraph

open Foundation

section Declarations

inductive RelationFailure (errors : RelationErrors) (enabledPackages : List PackageId)
    (first second : PackageId) : PackageGraphError → Prop where
  | firstNotEnabled : first ∉ enabledPackages →
      RelationFailure errors enabledPackages first second ⟨errors.firstNotEnabled, [first]⟩
  | secondNotEnabled : first ∈ enabledPackages → second ∉ enabledPackages →
      RelationFailure errors enabledPackages first second ⟨errors.secondNotEnabled, [second]⟩
  | selfRelation : first ∈ enabledPackages → first = second →
      RelationFailure errors enabledPackages first second ⟨errors.selfRelation, [first]⟩

variable {enabledPackages : List PackageId} {errors : RelationErrors} {first second : PackageId}
  {error : PackageGraphError}

theorem RelationFailure.relate
    (failure : RelationFailure errors enabledPackages first second error) :
    relate errors (Map.indexAll enabledPackages) first second = .error error := by
  cases failure with
  | firstNotEnabled missing =>
    simp [PackageDependencyGraph.relate, Map.lookup_indexAll, missing]
  | secondNotEnabled enabled missing =>
    simp [PackageDependencyGraph.relate, Map.lookup_indexAll, enabled, missing]
  | selfRelation enabled same =>
    simp [PackageDependencyGraph.relate, Map.lookup_indexAll, ← same, enabled]

theorem exists_relationFailure (errors : RelationErrors)
    (unrelated : ¬ Related enabledPackages first second) :
    ∃ error, RelationFailure errors enabledPackages first second error := by
  by_cases enabled : first ∈ enabledPackages
  · by_cases enabled' : second ∈ enabledPackages
    · have same : first = second := by_contra fun differs => unrelated ⟨enabled, enabled', differs⟩
      exact ⟨_, .selfRelation enabled same⟩
    · exact ⟨_, .secondNotEnabled enabled enabled'⟩
  · exact ⟨_, .firstNotEnabled enabled⟩

theorem Declares.addAll_of_first {δ : Type} {source target : δ → PackageId}
    {add : RelationData → δ → Checked (Except PackageGraphError RelationData)}
    (declares : Declares enabledPackages source target add) {before after : List δ} {failed : δ}
    {data : RelationData} (wf : data.WellFormed enabledPackages.length)
    (related : ∀ declaration ∈ before,
      Related enabledPackages (source declaration) (target declaration))
    (fails : ∀ data, add data failed = .ok (.error error)) :
    addAll add (before ++ failed :: after) data = .ok (.error error) := by
  induction before generalizing data with
  | nil =>
    rw [List.nil_append, addAll, fails]
    rfl
  | cons declaration before ih =>
    obtain ⟨here, related⟩ := List.forall_mem_cons.mp related
    obtain ⟨added, ran, wf', _⟩ := addEdge_spec wf
      (List.idxOf_lt_length_iff.mpr here.source_mem) (List.idxOf_lt_length_iff.mpr here.target_mem)
    rw [List.cons_append, addAll, declares.accepts data declaration here, ran]
    exact ih wf' related

theorem indexPackages_append (items rest : List (PackageId × PackageIndex))
    (indexes : PackageIndexes) :
    indexPackages (items ++ rest) indexes = indexPackages items indexes >>= indexPackages rest := by
  induction items generalizing indexes with
  | nil => rfl
  | cons item items ih =>
    obtain ⟨package, index⟩ := item
    rw [List.cons_append, indexPackages, indexPackages, Map.emplace]
    by_cases known : package ∈ indexes
    · rw [if_pos known]
      rfl
    · rw [if_neg known]
      exact ih _

theorem indexPackages_of_repetition {before after : List PackageId} {package : PackageId}
    (nodup : before.Nodup) (again : package ∈ before) :
    indexPackages (before ++ package :: after).zipIdx ∅ =
      .error ⟨.duplicateEnabledPackage, [package]⟩ := by
  have known : package ∈ Map.indexAll before := by
    rw [← AList.lookup_isSome, Map.lookup_indexAll, if_pos again]
    rfl
  rw [List.zipIdx_append, indexPackages_append, indexPackages_of_nodup nodup, List.zipIdx_cons]
  change indexPackages _ (Map.indexAll before) = _
  rw [indexPackages, Map.emplace, if_pos known]

end Declarations

section Cycles

variable {enabledPackages : List PackageId} {dependencies : List PackageDependency}
  {orderingConstraints : List PackageOrderConstraint} {adjacency : AdjacencyList}
  {stem : List PackageId} {last : PackageId}

theorem ValidDeclarations.lasso_enabled
    (valid : ValidDeclarations enabledPackages dependencies orderingConstraints)
    (lasso : IsLasso (DeclaredEdge dependencies orderingConstraints) stem last) :
    ∀ package ∈ stem ++ [last], package ∈ enabledPackages := by
  have inStem : ∀ package ∈ stem, package ∈ enabledPackages := by
    intro package member
    obtain ⟨next, declared⟩ := lasso.exists_edge member
    exact (valid.related declared).source_mem
  exact List.forall_mem_append.mpr ⟨inStem, List.forall_mem_singleton.mpr (inStem last lasso.mem)⟩

theorem ValidDeclarations.loop_eq_of_leastLasso
    (valid : ValidDeclarations enabledPackages dependencies orderingConstraints)
    {stem' : List PackageId} {last' : PackageId}
    (lasso : IsLeastLasso enabledPackages.idxOf (DeclaredEdge dependencies orderingConstraints)
      stem last)
    (lasso' : IsLeastLasso enabledPackages.idxOf (DeclaredEdge dependencies orderingConstraints)
      stem' last') : loop stem last = loop stem' last' := by
  have same := eq_of_map_idxOf_eq (valid.lasso_enabled lasso.toIsLasso) (lasso.map_rank_eq lasso')
  obtain ⟨rfl, ends⟩ := List.append_inj' same rfl
  rw [List.singleton_inj.mp ends]

theorem Indexes.edge_iff
    (valid : ValidDeclarations enabledPackages dependencies orderingConstraints)
    (indexes : Indexes enabledPackages (DeclaredEdge dependencies orderingConstraints) adjacency)
    (source target : PackageId) :
    Edge adjacency (enabledPackages.idxOf source) (enabledPackages.idxOf target) ↔
      DeclaredEdge dependencies orderingConstraints source target := by
  rw [indexes]
  constructor
  · rintro ⟨source', target', declared, sameSource, sameTarget⟩
    have related := valid.related declared
    rw [eq_comm, List.idxOf_inj related.source_mem] at sameSource
    rw [eq_comm, List.idxOf_inj related.target_mem] at sameTarget
    rwa [← sameSource, ← sameTarget]
  · exact fun declared => ⟨source, target, declared, rfl, rfl⟩

theorem pairwise_children_sortChildren (adjacency : AdjacencyList) (package : PackageIndex) :
    (children (sortChildren adjacency) package).Pairwise (· ≤ ·) := by
  rw [children, sortChildren, List.getElem?_map]
  cases adjacency[package]? with
  | none => simp
  | some targets => exact List.pairwise_insertionSort (· ≤ ·) targets

theorem Indexes.exists_packages
    (valid : ValidDeclarations enabledPackages dependencies orderingConstraints)
    (indexes : Indexes enabledPackages (DeclaredEdge dependencies orderingConstraints) adjacency)
    {positions : List PackageIndex} {position : PackageIndex}
    (lasso : IsLasso (Edge adjacency) positions position) :
    ∃ (stem : List PackageId) (last : PackageId), positions = stem.map enabledPackages.idxOf ∧
      position = enabledPackages.idxOf last ∧ ∀ package ∈ stem, package ∈ enabledPackages := by
  have named : ∀ index ∈ positions, index ∈ Set.range enabledPackages.idxOf := by
    intro index member
    obtain ⟨next, step⟩ := lasso.exists_edge member
    obtain ⟨source, _, _, rfl, _⟩ := (indexes _ _).mp step
    exact ⟨source, rfl⟩
  obtain ⟨stem, rfl⟩ : positions ∈ Set.range (List.map enabledPackages.idxOf) := by
    rw [Set.range_list_map]
    exact named
  obtain ⟨last, _, rfl⟩ := List.mem_map.mp lasso.mem
  refine ⟨stem, last, rfl, rfl, fun package member => ?_⟩
  obtain ⟨next, step⟩ := lasso.exists_edge (List.mem_map_of_mem member)
  obtain ⟨source, _, declared, same, _⟩ := (indexes _ _).mp step
  have enabled := (valid.related declared).source_mem
  rwa [(List.idxOf_inj enabled).mp same.symm] at enabled

theorem IsLeastCycle.packages
    (valid : ValidDeclarations enabledPackages dependencies orderingConstraints)
    (indexes : Indexes enabledPackages (DeclaredEdge dependencies orderingConstraints) adjacency)
    {cycle : List PackageId} (found : IsLeastCycle enabledPackages adjacency cycle) :
    ∃ stem last, IsLeastLasso enabledPackages.idxOf
        (DeclaredEdge dependencies orderingConstraints) stem last ∧ cycle = loop stem last := by
  obtain ⟨positions, position, lasso, names⟩ := found
  obtain ⟨stem, last, rfl, rfl, inside⟩ := indexes.exists_packages valid lasso.toIsLasso
  have edges := indexes.edge_iff valid
  refine ⟨stem, last, ⟨?_, fun other => ?_⟩, ?_⟩
  · exact (isLasso_map_iff edges fun package member _ =>
      (List.idxOf_inj (inside package member)).mp).mp lasso.toIsLasso
  · have enabled := valid.lasso_enabled other
    have mapped := lasso.least ((isLasso_map_iff edges fun package member _ =>
      (List.idxOf_inj (enabled package (by simp [member]))).mp).mpr other)
    simpa using mapped
  · have mapped := map_idxOf_of_names valid.nodup names
    rw [loop_map fun package member => (List.idxOf_inj (inside package member)).mp] at mapped
    exact eq_of_map_idxOf_eq (mem_of_names names) mapped

end Cycles

inductive GraphFailure (enabledPackages : List PackageId) (dependencies : List PackageDependency)
    (orderingConstraints : List PackageOrderConstraint) : PackageGraphError → Prop where
  | duplicate {before after : List PackageId} {package : PackageId} :
      enabledPackages = before ++ package :: after → before.Nodup → package ∈ before →
      GraphFailure enabledPackages dependencies orderingConstraints
        ⟨.duplicateEnabledPackage, [package]⟩
  | dependency {before after : List PackageDependency} {dependency : PackageDependency}
      {error : PackageGraphError} :
      enabledPackages.Nodup → dependencies = before ++ dependency :: after →
      (∀ earlier ∈ before,
        Related enabledPackages earlier.requiredPackage earlier.dependentPackage) →
      RelationFailure ⟨.dependentPackageNotEnabled, .requiredPackageNotEnabled, .selfDependency⟩
        enabledPackages dependency.dependentPackage dependency.requiredPackage error →
      GraphFailure enabledPackages dependencies orderingConstraints error
  | constraint {before after : List PackageOrderConstraint} {constraint : PackageOrderConstraint}
      {error : PackageGraphError} :
      ValidDeclarations enabledPackages dependencies before →
      orderingConstraints = before ++ constraint :: after →
      RelationFailure ⟨.orderingPackageNotEnabled, .orderingPackageNotEnabled, .selfOrdering⟩
        enabledPackages constraint.beforePackage constraint.afterPackage error →
      GraphFailure enabledPackages dependencies orderingConstraints error
  | cycle {stem : List PackageId} {last : PackageId} :
      ValidDeclarations enabledPackages dependencies orderingConstraints →
      IsLeastLasso enabledPackages.idxOf (DeclaredEdge dependencies orderingConstraints) stem last →
      GraphFailure enabledPackages dependencies orderingConstraints ⟨.cycle, loop stem last⟩

section Create

variable {enabledPackages : List PackageId} {dependencies : List PackageDependency}
  {orderingConstraints : List PackageOrderConstraint} {error : PackageGraphError}

theorem exists_graphFailure
    (invalid : ¬ ValidDeclarations enabledPackages dependencies orderingConstraints) :
    ∃ error, GraphFailure enabledPackages dependencies orderingConstraints error := by
  by_cases nodup : enabledPackages.Nodup
  · by_cases related : ∀ dependency ∈ dependencies,
        Related enabledPackages dependency.requiredPackage dependency.dependentPackage
    · have unrelated : ¬ ∀ constraint ∈ orderingConstraints,
          Related enabledPackages constraint.beforePackage constraint.afterPackage :=
        fun constraint => invalid ⟨nodup, related, constraint⟩
      obtain ⟨before, constraint, after, split, earlier, fails⟩ :=
        exists_first_of_not_forall unrelated
      obtain ⟨error, failure⟩ := exists_relationFailure _ fails
      exact ⟨error, .constraint ⟨nodup, related, earlier⟩ split failure⟩
    · obtain ⟨before, dependency, after, split, earlier, fails⟩ := exists_first_of_not_forall related
      obtain ⟨error, failure⟩ := exists_relationFailure _ fun ok => fails (Related.symm ok)
      exact ⟨error, .dependency nodup split earlier failure⟩
  · obtain ⟨before, package, after, split, distinct, again⟩ := exists_first_repetition nodup
    exact ⟨_, .duplicate split distinct again⟩

theorem ValidDeclarations.leastLasso_of_cycle
    (valid : ValidDeclarations enabledPackages dependencies orderingConstraints)
    {cycle : List PackageId}
    (created : create enabledPackages dependencies orderingConstraints =
      .ok (.error ⟨.cycle, cycle⟩)) :
    ∃ stem last, IsLeastLasso enabledPackages.idxOf
        (DeclaredEdge dependencies orderingConstraints) stem last ∧ cycle = loop stem last := by
  obtain ⟨data, wf, edges, outcome⟩ := valid.outcome
  cases outcome with
  | cyclic found _ created' =>
    cases created'.symm.trans created
    exact (findCycle_leastCycle wf.validAdjacency (pairwise_children_sortChildren data.adjacency)
      found).packages valid (wf.indexes edges)
  | resolved _ _ _ _ created' => cases created'.symm.trans created

theorem GraphFailure.create
    (failure : GraphFailure enabledPackages dependencies orderingConstraints error) :
    create enabledPackages dependencies orderingConstraints = .ok (.error error) := by
  have initial := RelationData.WellFormed.initial enabledPackages.length
  cases failure with
  | duplicate split nodup again =>
    simp only [PackageDependencyGraph.create, split, indexPackages_of_repetition nodup again]
    rfl
  | @dependency before after dependency _ nodup split related failure =>
    have fails : ∀ data, addDependency (Map.indexAll enabledPackages) data dependency =
        .ok (.error error) := by
      intro data
      simp only [addDependency, failure.relate]
    have stopped : addAll _ (before ++ dependency :: after) _ = _ :=
      (declares_addDependency enabledPackages).addAll_of_first initial related fails
    simp only [PackageDependencyGraph.create, indexPackages_of_nodup nodup, split, stopped,
      Checked.ok_bind]
    rfl
  | @constraint before after constraint _ valid split failure =>
    have fails : ∀ data, addConstraint (Map.indexAll enabledPackages) data constraint =
        .ok (.error error) := by
      intro data
      simp only [addConstraint, failure.relate]
    obtain ⟨data, ran, wf, _⟩ :=
      (declares_addDependency enabledPackages).addAll_of_related initial valid.dependency
    have stopped : addAll _ (before ++ constraint :: after) _ = _ :=
      (declares_addConstraint enabledPackages).addAll_of_first wf valid.constraint fails
    simp only [PackageDependencyGraph.create, indexPackages_of_nodup valid.nodup, split, ran, stopped,
      Checked.ok_bind]
    rfl
  | cycle valid lasso =>
    obtain ⟨cycle, created⟩ := valid.create_of_not_acyclic lasso.toIsLasso.not_acyclic
    obtain ⟨stem', last', lasso', rfl⟩ := valid.leastLasso_of_cycle created
    rw [created, valid.loop_eq_of_leastLasso lasso lasso']

theorem create_fails_iff (enabledPackages : List PackageId) (dependencies : List PackageDependency)
    (orderingConstraints : List PackageOrderConstraint) (error : PackageGraphError) :
    create enabledPackages dependencies orderingConstraints = .ok (.error error) ↔
      GraphFailure enabledPackages dependencies orderingConstraints error := by
  refine ⟨fun failed => ?_, GraphFailure.create⟩
  by_cases valid : ValidDeclarations enabledPackages dependencies orderingConstraints
  · by_cases acyclic : Acyclic (DeclaredEdge dependencies orderingConstraints)
    · obtain ⟨order, created, _⟩ := valid.create_of_acyclic acyclic
      cases created.symm.trans failed
    · obtain ⟨cycle, created⟩ := valid.create_of_not_acyclic acyclic
      cases created.symm.trans failed
      obtain ⟨stem, last, lasso, rfl⟩ := valid.leastLasso_of_cycle created
      exact .cycle valid lasso
  · obtain ⟨error', failure⟩ := exists_graphFailure valid
    cases failure.create.symm.trans failed
    exact failure

example :
    create [⟨[1]⟩, ⟨[2]⟩, ⟨[3]⟩] [⟨⟨[3]⟩, ⟨[2]⟩⟩, ⟨⟨[2]⟩, ⟨[3]⟩⟩] [⟨⟨[1]⟩, ⟨[3]⟩⟩] =
      .ok (.error ⟨.cycle, [⟨[3]⟩, ⟨[2]⟩, ⟨[3]⟩]⟩) := by decide

end Create

end FastModManager.Domain.PackageDependencyGraph
