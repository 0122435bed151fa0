import FastModManager.Domain.PackageDependencyGraphLaws
import FastModManager.Foundation.LexOrder
import FastModManager.Foundation.SortAndGroup

namespace FastModManager.Domain.PackageDependencyGraph

open Foundation

section SameEdges

theorem sortChildren_congr {adjacency adjacency' : AdjacencyList}
    (length : adjacency.length = adjacency'.length)
    (perm : ∀ package, (children adjacency package).Perm (children adjacency' package)) :
    sortChildren adjacency = sortChildren adjacency' := by
  apply List.ext_getElem (by simpa [sortChildren] using length)
  intro package inside inside'
  simp only [sortChildren, List.length_map] at inside inside'
  have here := perm package
  simp only [children, List.getElem?_eq_getElem inside, List.getElem?_eq_getElem inside',
    Option.getD_some] at here
  simp only [sortChildren, List.getElem_map]
  apply List.Perm.eq_of_sortedLE List.sortedLE_insertionSort List.sortedLE_insertionSort
  exact ((List.perm_insertionSort _ _).trans here).trans (List.perm_insertionSort _ _).symm

theorem RelationData.WellFormed.unique {count : Nat} {data data' : RelationData}
    (wf : data.WellFormed count) (wf' : data'.WellFormed count)
    (same : ∀ u v, (u, v) ∈ data.edges ↔ (u, v) ∈ data'.edges) :
    sortChildren data.adjacency = sortChildren data'.adjacency ∧
      data.indegrees = data'.indegrees := by
  have edge : ∀ u v, Edge data.adjacency u v ↔ Edge data'.adjacency u v := by
    intro u v
    rw [wf.edge_iff, wf'.edge_iff, same]
  have length : data.adjacency.length = data'.adjacency.length := wf.length.trans wf'.length.symm
  constructor
  · apply sortChildren_congr length
    intro package
    exact (List.perm_ext_iff_of_nodup (wf.counts.nodup package) (wf'.counts.nodup package)).mpr
      (edge package)
  · apply List.ext_getElem?
    intro package
    by_cases inside : package < data.adjacency.length
    · have sources : predecessors data.adjacency [] package =
          predecessors data'.adjacency [] package := by
        ext source
        rw [mem_predecessors, mem_predecessors, edge]
      rw [wf.counts.indegree package inside, wf'.counts.indegree package (length ▸ inside), sources]
    · have outside := Nat.le_of_not_lt inside
      rw [List.getElem?_eq_none (wf.counts.length ▸ outside),
        List.getElem?_eq_none (wf'.counts.length ▸ length ▸ outside)]

end SameEdges

theorem create_of_same_edges (enabledPackages : List PackageId)
    (dependencies dependencies' : List PackageDependency)
    (orderingConstraints orderingConstraints' : List PackageOrderConstraint)
    (valid : ValidDeclarations enabledPackages dependencies orderingConstraints)
    (valid' : ValidDeclarations enabledPackages dependencies' orderingConstraints')
    (same : ∀ source target, DeclaredEdge dependencies orderingConstraints source target ↔
      DeclaredEdge dependencies' orderingConstraints' source target) :
    (∃ resolvedOrder,
      create enabledPackages dependencies orderingConstraints =
        .ok (.ok ⟨enabledPackages, dependencies, orderingConstraints, resolvedOrder⟩) ∧
      create enabledPackages dependencies' orderingConstraints' =
        .ok (.ok ⟨enabledPackages, dependencies', orderingConstraints', resolvedOrder⟩)) ∨
    ∃ cycle,
      create enabledPackages dependencies orderingConstraints = .ok (.error ⟨.cycle, cycle⟩) ∧
      create enabledPackages dependencies' orderingConstraints' =
        .ok (.error ⟨.cycle, cycle⟩) := by
  obtain ⟨data, wf, edges, outcome⟩ := valid.outcome
  obtain ⟨data', wf', edges', outcome'⟩ := valid'.outcome
  obtain ⟨adjacency, indegrees⟩ := wf.unique wf' fun u v => by
    rw [edges, edges']
    simp only [same]
  rw [← adjacency, ← indegrees] at outcome'
  -- both searches and both schedulers run on one graph
  cases outcome with
  | @cyclic cycle found _ created =>
    cases outcome' with
    | cyclic found' _ created' =>
      cases found.symm.trans found'
      exact .inr ⟨cycle, created, created'⟩
    | resolved found' => cases found.symm.trans found'
  | @resolved order _ found _ ran _ created =>
    cases outcome' with
    | cyclic found' => cases found.symm.trans found'
    | resolved _ _ ran' _ created' =>
      cases ran.symm.trans ran'
      exact .inl ⟨order, created, created'⟩

theorem create_of_same_edges_of_two :
    (∃ resolvedOrder,
      create [⟨[1]⟩, ⟨[2]⟩] [⟨⟨[1]⟩, ⟨[2]⟩⟩] [] =
        .ok (.ok ⟨[⟨[1]⟩, ⟨[2]⟩], [⟨⟨[1]⟩, ⟨[2]⟩⟩], [], resolvedOrder⟩) ∧
      create [⟨[1]⟩, ⟨[2]⟩] [] [⟨⟨[2]⟩, ⟨[1]⟩⟩, ⟨⟨[2]⟩, ⟨[1]⟩⟩] =
        .ok (.ok ⟨[⟨[1]⟩, ⟨[2]⟩], [], [⟨⟨[2]⟩, ⟨[1]⟩⟩, ⟨⟨[2]⟩, ⟨[1]⟩⟩], resolvedOrder⟩)) ∨
    ∃ cycle,
      create [⟨[1]⟩, ⟨[2]⟩] [⟨⟨[1]⟩, ⟨[2]⟩⟩] [] = .ok (.error ⟨.cycle, cycle⟩) ∧
      create [⟨[1]⟩, ⟨[2]⟩] [] [⟨⟨[2]⟩, ⟨[1]⟩⟩, ⟨⟨[2]⟩, ⟨[1]⟩⟩] = .ok (.error ⟨.cycle, cycle⟩) :=
  create_of_same_edges [⟨[1]⟩, ⟨[2]⟩] [⟨⟨[1]⟩, ⟨[2]⟩⟩] [] [] [⟨⟨[2]⟩, ⟨[1]⟩⟩, ⟨⟨[2]⟩, ⟨[1]⟩⟩]
    ⟨by decide, by decide, by decide⟩ ⟨by decide, by decide, by decide⟩
    fun source target => by simp [DeclaredEdge]

section LeastOrder

variable {enabledPackages : List PackageId} {dependencies : List PackageDependency}
  {orderingConstraints : List PackageOrderConstraint} {order : List PackageId}

theorem IsLoadOrder.acyclic
    (load : IsLoadOrder enabledPackages dependencies orderingConstraints order) :
    Acyclic (DeclaredEdge dependencies orderingConstraints) :=
  acyclic_of_increasing order.idxOf load.before

theorem eq_of_map_idxOf_eq {packages packages' : List PackageId}
    (inside : ∀ package ∈ packages, package ∈ enabledPackages)
    (same : packages.map enabledPackages.idxOf = packages'.map enabledPackages.idxOf) :
    packages = packages' := by
  induction packages generalizing packages' with
  | nil => exact (List.map_eq_nil_iff.mp same.symm).symm
  | cons package packages ih =>
    obtain ⟨package', rest, rfl, first, tail⟩ := List.map_eq_cons_iff.mp same.symm
    obtain rfl := (List.idxOf_inj (inside package (by simp))).mp first.symm
    rw [ih (fun other h => inside other (List.mem_cons_of_mem _ h)) tail.symm]

theorem IsLeastLoadOrder.unique {order' : List PackageId}
    (least : IsLeastLoadOrder enabledPackages dependencies orderingConstraints order)
    (least' : IsLeastLoadOrder enabledPackages dependencies orderingConstraints order') :
    order = order' := by
  apply eq_of_map_idxOf_eq fun package member => least.1.perm.subset member
  exact le_antisymm (least.2 order' least'.1) (least'.2 order least.1)

theorem ValidDeclarations.create_of_least
    (valid : ValidDeclarations enabledPackages dependencies orderingConstraints)
    (least : IsLeastLoadOrder enabledPackages dependencies orderingConstraints order) :
    create enabledPackages dependencies orderingConstraints =
      .ok (.ok ⟨enabledPackages, dependencies, orderingConstraints, order⟩) := by
  obtain ⟨resolvedOrder, ran, resolved⟩ := valid.create_of_acyclic least.1.acyclic
  rw [ran, resolved.unique least]

theorem IsLoadOrder.least_of_enabled (nodup : order.Nodup)
    (load : IsLoadOrder order dependencies orderingConstraints order) :
    IsLeastLoadOrder order dependencies orderingConstraints order := by
  refine ⟨load, fun other otherLoad => ?_⟩
  have sorted : (order.map order.idxOf).Pairwise (· ≤ ·) := by
    rw [map_idxOf_self nodup]
    exact List.pairwise_le_range
  exact le_of_perm_of_sorted sorted (otherLoad.perm.symm.map _)

end LeastOrder

def Satisfied (enabledPackages order : List PackageId) (before after : PackageId) : Prop :=
  before ∈ enabledPackages ∧ after ∈ enabledPackages ∧ order.idxOf before < order.idxOf after

instance (enabledPackages order : List PackageId) (before after : PackageId) :
    Decidable (Satisfied enabledPackages order before after) :=
  inferInstanceAs (Decidable (_ ∧ _ ∧ _))

theorem Satisfied.related {enabledPackages order : List PackageId} {before after : PackageId}
    (h : Satisfied enabledPackages order before after) : Related enabledPackages before after := by
  obtain ⟨source, target, earlier⟩ := h
  refine ⟨source, target, ?_⟩
  rintro rfl
  exact earlier.false

theorem DeclaredEdge.mono {dependencies dependencies' : List PackageDependency}
    {orderingConstraints orderingConstraints' : List PackageOrderConstraint}
    (keepsDependencies : dependencies ⊆ dependencies')
    (keepsConstraints : orderingConstraints ⊆ orderingConstraints') {source target : PackageId}
    (edge : DeclaredEdge dependencies orderingConstraints source target) :
    DeclaredEdge dependencies' orderingConstraints' source target := by
  rcases edge with ⟨dependency, member, ends⟩ | ⟨constraint, member, ends⟩
  · exact .inl ⟨dependency, keepsDependencies member, ends⟩
  · exact .inr ⟨constraint, keepsConstraints member, ends⟩

theorem Created.with_satisfied {enabledPackages : List PackageId}
    {dependencies dependencies' : List PackageDependency}
    {orderingConstraints orderingConstraints' : List PackageOrderConstraint}
    {graph : PackageDependencyGraph}
    (created : Created enabledPackages dependencies orderingConstraints graph)
    (kept : ∀ source target, DeclaredEdge dependencies orderingConstraints source target →
      DeclaredEdge dependencies' orderingConstraints' source target)
    (further : ∀ source target, DeclaredEdge dependencies' orderingConstraints' source target →
      DeclaredEdge dependencies orderingConstraints source target ∨
        Satisfied enabledPackages graph.resolvedOrder source target) :
    ValidDeclarations enabledPackages dependencies' orderingConstraints' ∧
      IsLeastLoadOrder enabledPackages dependencies' orderingConstraints' graph.resolvedOrder := by
  obtain ⟨valid, _, load, least⟩ := created
  refine ⟨.of_related valid.nodup ?_, .of_before load.perm ?_, ?_⟩
  · intro source target edge
    rcases further source target edge with old | satisfied
    · exact valid.related old
    · exact satisfied.related
  · intro source target edge
    rcases further source target edge with old | satisfied
    · exact load.before old
    · exact satisfied.2.2
  · intro other otherLoad
    apply least other
    exact .of_before otherLoad.perm fun source target edge =>
      otherLoad.before (kept source target edge)

/-- The resolved order is a fixed point, and declarations that it satisfies do not change it. -/
theorem create_is_stable (enabledPackages : List PackageId) (dependencies : List PackageDependency)
    (orderingConstraints : List PackageOrderConstraint) (graph : PackageDependencyGraph)
    (h : create enabledPackages dependencies orderingConstraints = .ok (.ok graph)) :
    create graph.resolvedOrder dependencies orderingConstraints =
        .ok (.ok ⟨graph.resolvedOrder, dependencies, orderingConstraints, graph.resolvedOrder⟩) ∧
      ∀ (dependencies' : List PackageDependency)
        (orderingConstraints' : List PackageOrderConstraint),
        dependencies ⊆ dependencies' → orderingConstraints ⊆ orderingConstraints' →
        (∀ dependency ∈ dependencies', dependency ∈ dependencies ∨
          Satisfied enabledPackages graph.resolvedOrder dependency.requiredPackage
            dependency.dependentPackage) →
        (∀ constraint ∈ orderingConstraints', constraint ∈ orderingConstraints ∨
          Satisfied enabledPackages graph.resolvedOrder constraint.beforePackage
            constraint.afterPackage) →
        create enabledPackages dependencies' orderingConstraints' =
          .ok (.ok ⟨enabledPackages, dependencies', orderingConstraints', graph.resolvedOrder⟩) := by
  have created := created_of_create h
  constructor
  · obtain ⟨valid, _, load, _⟩ := created
    have nodup : graph.resolvedOrder.Nodup := load.perm.nodup_iff.mpr valid.nodup
    have valid' : ValidDeclarations graph.resolvedOrder dependencies orderingConstraints := by
      apply ValidDeclarations.of_related nodup
      intro source target edge
      obtain ⟨sourceIn, targetIn, differs⟩ := valid.related edge
      exact ⟨load.perm.mem_iff.mpr sourceIn, load.perm.mem_iff.mpr targetIn, differs⟩
    have load' : IsLoadOrder graph.resolvedOrder dependencies orderingConstraints
        graph.resolvedOrder := .of_before (.refl _) fun source target edge => load.before edge
    exact valid'.create_of_least (load'.least_of_enabled nodup)
  · intro dependencies' orderingConstraints' keepsDependencies keepsConstraints dependency constraint
    have further : ∀ source target,
        DeclaredEdge dependencies' orderingConstraints' source target →
        DeclaredEdge dependencies orderingConstraints source target ∨
          Satisfied enabledPackages graph.resolvedOrder source target := by
      rintro _ _ (⟨declared, member, rfl, rfl⟩ | ⟨declared, member, rfl, rfl⟩)
      · exact (dependency declared member).imp_left fun old => .inl ⟨declared, old, rfl, rfl⟩
      · exact (constraint declared member).imp_left fun old => .inr ⟨declared, old, rfl, rfl⟩
    obtain ⟨valid', least'⟩ := created.with_satisfied
      (fun source target edge => edge.mono keepsDependencies keepsConstraints) further
    exact valid'.create_of_least least'

theorem create_is_stable_of_three :
    create [⟨[3]⟩, ⟨[1]⟩, ⟨[2]⟩] [⟨⟨[1]⟩, ⟨[3]⟩⟩] [] =
        .ok (.ok ⟨[⟨[3]⟩, ⟨[1]⟩, ⟨[2]⟩], [⟨⟨[1]⟩, ⟨[3]⟩⟩], [], [⟨[3]⟩, ⟨[1]⟩, ⟨[2]⟩]⟩) ∧
      create [⟨[1]⟩, ⟨[3]⟩, ⟨[2]⟩] [⟨⟨[1]⟩, ⟨[3]⟩⟩] [⟨⟨[3]⟩, ⟨[2]⟩⟩] =
        .ok (.ok ⟨[⟨[1]⟩, ⟨[3]⟩, ⟨[2]⟩], [⟨⟨[1]⟩, ⟨[3]⟩⟩], [⟨⟨[3]⟩, ⟨[2]⟩⟩],
          [⟨[3]⟩, ⟨[1]⟩, ⟨[2]⟩]⟩) := by
  obtain ⟨fixed, further⟩ := create_is_stable [⟨[1]⟩, ⟨[3]⟩, ⟨[2]⟩] [⟨⟨[1]⟩, ⟨[3]⟩⟩] []
    ⟨[⟨[1]⟩, ⟨[3]⟩, ⟨[2]⟩], [⟨⟨[1]⟩, ⟨[3]⟩⟩], [], [⟨[3]⟩, ⟨[1]⟩, ⟨[2]⟩]⟩ (by decide)
  exact ⟨fixed, further [⟨⟨[1]⟩, ⟨[3]⟩⟩] [⟨⟨[3]⟩, ⟨[2]⟩⟩] (by decide) (by decide) (by decide)
    (by decide)⟩

section WithoutLeaf

def withoutPackage (leaf : PackageId) (packages : List PackageId) : List PackageId :=
  packages.filter (· ≠ leaf)

def dependenciesWithout (leaf : PackageId) (dependencies : List PackageDependency) :
    List PackageDependency :=
  dependencies.filter fun dependency =>
    dependency.dependentPackage ≠ leaf ∧ dependency.requiredPackage ≠ leaf

def constraintsWithout (leaf : PackageId) (orderingConstraints : List PackageOrderConstraint) :
    List PackageOrderConstraint :=
  orderingConstraints.filter fun constraint =>
    constraint.beforePackage ≠ leaf ∧ constraint.afterPackage ≠ leaf

variable {enabledPackages : List PackageId} {dependencies : List PackageDependency}
  {orderingConstraints : List PackageOrderConstraint} {leaf : PackageId}

theorem declaredEdge_without {source target : PackageId} :
    DeclaredEdge (dependenciesWithout leaf dependencies)
        (constraintsWithout leaf orderingConstraints) source target ↔
      DeclaredEdge dependencies orderingConstraints source target ∧
        source ≠ leaf ∧ target ≠ leaf := by
  constructor
  · rintro (⟨dependency, member, rfl, rfl⟩ | ⟨constraint, member, rfl, rfl⟩)
    · obtain ⟨member, kept⟩ := List.mem_filter.mp member
      obtain ⟨target, source⟩ := of_decide_eq_true kept
      exact ⟨.inl ⟨dependency, member, rfl, rfl⟩, source, target⟩
    · obtain ⟨member, kept⟩ := List.mem_filter.mp member
      exact ⟨.inr ⟨constraint, member, rfl, rfl⟩, of_decide_eq_true kept⟩
  · rintro ⟨⟨dependency, member, rfl, rfl⟩ | ⟨constraint, member, rfl, rfl⟩, source, target⟩
    · refine .inl ⟨dependency, List.mem_filter.mpr ⟨member, ?_⟩, rfl, rfl⟩
      exact decide_eq_true ⟨target, source⟩
    · refine .inr ⟨constraint, List.mem_filter.mpr ⟨member, ?_⟩, rfl, rfl⟩
      exact decide_eq_true ⟨source, target⟩

theorem mem_withoutPackage {package : PackageId} {packages : List PackageId} :
    package ∈ withoutPackage leaf packages ↔ package ∈ packages ∧ package ≠ leaf := by
  simp [withoutPackage]

theorem Related.without {source target : PackageId} (h : Related enabledPackages source target)
    (sourceStays : source ≠ leaf) (targetStays : target ≠ leaf) :
    Related (withoutPackage leaf enabledPackages) source target :=
  ⟨mem_withoutPackage.mpr ⟨h.source_mem, sourceStays⟩,
    mem_withoutPackage.mpr ⟨h.target_mem, targetStays⟩, h.ne⟩

theorem ValidDeclarations.without
    (valid : ValidDeclarations enabledPackages dependencies orderingConstraints)
    (leaf : PackageId) :
    ValidDeclarations (withoutPackage leaf enabledPackages) (dependenciesWithout leaf dependencies)
      (constraintsWithout leaf orderingConstraints) := by
  apply ValidDeclarations.of_related (valid.nodup.filter _)
  intro source target edge
  obtain ⟨declared, sourceStays, targetStays⟩ := declaredEdge_without.mp edge
  exact (valid.related declared).without sourceStays targetStays

theorem idxOf_withoutPackage_lt_iff {packages : List PackageId} {package other : PackageId}
    (stays : package ≠ leaf) (otherStays : other ≠ leaf) :
    (withoutPackage leaf packages).idxOf package < (withoutPackage leaf packages).idxOf other ↔
      packages.idxOf package < packages.idxOf other :=
  idxOf_filter_lt_iff (decide_eq_true stays) (decide_eq_true otherStays)

theorem IsLoadOrder.without {order : List PackageId}
    (load : IsLoadOrder enabledPackages dependencies orderingConstraints order)
    (leaf : PackageId) :
    IsLoadOrder (withoutPackage leaf enabledPackages) (dependenciesWithout leaf dependencies)
      (constraintsWithout leaf orderingConstraints) (withoutPackage leaf order) := by
  apply IsLoadOrder.of_before (load.perm.filter _)
  intro source target edge
  obtain ⟨declared, sourceStays, targetStays⟩ := declaredEdge_without.mp edge
  exact (idxOf_withoutPackage_lt_iff sourceStays targetStays).mpr (load.before declared)

theorem withoutPackage_append_cons {before after : List PackageId}
    (nodup : (before ++ leaf :: after).Nodup) :
    withoutPackage leaf (before ++ leaf :: after) = before ++ after := by
  have fresh : leaf ∉ before ++ after := (List.nodup_middle.mp nodup).notMem
  rw [withoutPackage, List.filter_append, List.filter_cons_of_neg (by simp), ← List.filter_append,
    List.filter_eq_self]
  intro package member
  refine decide_eq_true ?_
  rintro rfl
  exact fresh member

theorem IsLoadOrder.insert_leaf
    (valid : ValidDeclarations enabledPackages dependencies orderingConstraints)
    (enabled : leaf ∈ enabledPackages)
    (isLeaf : ∀ package, ¬ DeclaredEdge dependencies orderingConstraints leaf package)
    {before after : List PackageId}
    (load : IsLoadOrder (withoutPackage leaf enabledPackages)
      (dependenciesWithout leaf dependencies) (constraintsWithout leaf orderingConstraints)
      (before ++ after))
    (early : ∀ package ∈ after, ¬ DeclaredEdge dependencies orderingConstraints package leaf) :
    IsLoadOrder enabledPackages dependencies orderingConstraints (before ++ leaf :: after) := by
  have fresh : leaf ∉ before ++ after := by
    intro member
    exact (mem_withoutPackage.mp (load.perm.subset member)).2 rfl
  obtain ⟨front, back, split⟩ := List.append_of_mem enabled
  have perm : (before ++ leaf :: after).Perm enabledPackages := by
    have others := load.perm
    rw [split, withoutPackage_append_cons (split ▸ valid.nodup)] at others
    rw [split]
    exact List.perm_middle.trans ((others.cons leaf).trans List.perm_middle.symm)
  have respects := ((valid.without leaf).isLoadOrder_iff load.perm).mp load
  apply (valid.isLoadOrder_iff perm).mpr
  apply Respects.insert_sink _ fresh isLeaf early
  exact respects.imp fun free step => free (declaredEdge_without.mpr step)

theorem IsLeastLoadOrder.without {order : List PackageId}
    (valid : ValidDeclarations enabledPackages dependencies orderingConstraints)
    (least : IsLeastLoadOrder enabledPackages dependencies orderingConstraints order)
    (enabled : leaf ∈ enabledPackages)
    (isLeaf : ∀ package, ¬ DeclaredEdge dependencies orderingConstraints leaf package) :
    IsLeastLoadOrder (withoutPackage leaf enabledPackages) (dependenciesWithout leaf dependencies)
      (constraintsWithout leaf orderingConstraints) (withoutPackage leaf order) := by
  refine ⟨least.1.without leaf, fun other load => not_lt.mp fun less => ?_⟩
  have smaller : other.map enabledPackages.idxOf <
      (withoutPackage leaf order).map enabledPackages.idxOf := by
    refine (map_lt_map_iff (· ≠ leaf) ?_ ?_ ?_).mp less
    · exact fun package other stays otherStays => idxOf_withoutPackage_lt_iff stays otherStays
    · exact fun package member => (mem_withoutPackage.mp (load.perm.subset member)).2
    · exact fun package member => (mem_withoutPackage.mp member).2
  have nodup : order.Nodup := least.1.perm.nodup_iff.mpr valid.nodup
  obtain ⟨front, back, rfl⟩ := List.append_of_mem (least.1.perm.mem_iff.mpr enabled)
  have rest := withoutPackage_append_cons nodup
  have length : other.length = (front ++ back).length := by
    rw [← rest]
    exact (load.perm.trans (least.1.without leaf).perm.symm).length_eq
  rw [rest, List.map_append] at smaller
  -- a smaller order of the others, completed by the leaf, is smaller than the least one
  rcases lt_append_cases smaller (by simpa using length) with within | ⟨otherRest, split, behind⟩
  · have load' : IsLoadOrder enabledPackages dependencies orderingConstraints (other ++ [leaf]) :=
      IsLoadOrder.insert_leaf valid enabled isLeaf (by simpa using load) (by simp)
    have bound := least.2 _ load'
    rw [List.map_append, List.map_append] at bound
    exact absurd (within _ _) (not_lt.mpr bound)
  · obtain ⟨stem, tail, rfl, sameStem, rfl⟩ := List.map_eq_append_iff.mp split
    obtain rfl : front = stem := eq_of_map_idxOf_eq
      (fun package member => least.1.perm.subset (List.mem_append_left _ member)) sameStem.symm
    have sameTail : tail.Perm back := by
      have perm := load.perm.trans (least.1.without leaf).perm.symm
      rw [rest] at perm
      exact (List.perm_append_left_iff _).mp perm
    have respects := (valid.isLoadOrder_iff least.1.perm).mp least.1
    have early : ∀ package ∈ tail,
        ¬ DeclaredEdge dependencies orderingConstraints package leaf := by
      intro package member
      have behindLeaf := (List.pairwise_append.mp respects).2.1
      exact (List.pairwise_cons.mp behindLeaf).1 package (sameTail.subset member)
    have bound := least.2 _ (IsLoadOrder.insert_leaf valid enabled isLeaf load early)
    rw [List.map_append, List.map_append, List.map_cons, List.map_cons] at bound
    have less : front.map enabledPackages.idxOf ++
        enabledPackages.idxOf leaf :: tail.map enabledPackages.idxOf <
        front.map enabledPackages.idxOf ++
        enabledPackages.idxOf leaf :: back.map enabledPackages.idxOf :=
      List.append_left_lt (List.cons_lt_cons_iff.mpr (.inr ⟨rfl, behind⟩))
    exact absurd less (not_lt.mpr bound)

end WithoutLeaf

theorem create_without_leaf (enabledPackages : List PackageId)
    (dependencies : List PackageDependency) (orderingConstraints : List PackageOrderConstraint)
    (graph : PackageDependencyGraph)
    (h : create enabledPackages dependencies orderingConstraints = .ok (.ok graph))
    (leaf : PackageId) (enabled : leaf ∈ enabledPackages)
    (notRequired : ∀ dependency ∈ dependencies, dependency.requiredPackage ≠ leaf)
    (notBefore : ∀ constraint ∈ orderingConstraints, constraint.beforePackage ≠ leaf) :
    create (withoutPackage leaf enabledPackages) (dependenciesWithout leaf dependencies)
        (constraintsWithout leaf orderingConstraints) =
      .ok (.ok ⟨withoutPackage leaf enabledPackages, dependenciesWithout leaf dependencies,
        constraintsWithout leaf orderingConstraints, withoutPackage leaf graph.resolvedOrder⟩) := by
  obtain ⟨valid, _, least⟩ := created_of_create h
  have isLeaf : ∀ package, ¬ DeclaredEdge dependencies orderingConstraints leaf package := by
    rintro package (⟨dependency, member, source, _⟩ | ⟨constraint, member, source, _⟩)
    · exact notRequired dependency member source
    · exact notBefore constraint member source
  exact (valid.without leaf).create_of_least (least.without valid enabled isLeaf)

theorem create_without_leaf_of_three :
    create [⟨[1]⟩, ⟨[2]⟩] [] [⟨⟨[2]⟩, ⟨[1]⟩⟩] =
      .ok (.ok ⟨[⟨[1]⟩, ⟨[2]⟩], [], [⟨⟨[2]⟩, ⟨[1]⟩⟩], [⟨[2]⟩, ⟨[1]⟩]⟩) :=
  create_without_leaf [⟨[1]⟩, ⟨[3]⟩, ⟨[2]⟩] [⟨⟨[3]⟩, ⟨[2]⟩⟩] [⟨⟨[2]⟩, ⟨[1]⟩⟩]
    ⟨[⟨[1]⟩, ⟨[3]⟩, ⟨[2]⟩], [⟨⟨[3]⟩, ⟨[2]⟩⟩], [⟨⟨[2]⟩, ⟨[1]⟩⟩], [⟨[2]⟩, ⟨[1]⟩, ⟨[3]⟩]⟩ (by decide)
    ⟨[3]⟩ (by decide) (by decide) (by decide)

end FastModManager.Domain.PackageDependencyGraph
