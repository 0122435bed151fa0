import FastModManager.Domain.CycleSearchRuns
import FastModManager.Domain.ResolveOrderLaws

namespace FastModManager.Domain.PackageDependencyGraph

open Foundation Relation

/-- The relations declared among packages: `source` has to come before `target`. -/
def DeclaredEdge (dependencies : List PackageDependency)
    (orderingConstraints : List PackageOrderConstraint) (source target : PackageId) : Prop :=
  (∃ dependency ∈ dependencies,
    dependency.requiredPackage = source ∧ dependency.dependentPackage = target) ∨
  ∃ constraint ∈ orderingConstraints,
    constraint.beforePackage = source ∧ constraint.afterPackage = target

structure Related (enabledPackages : List PackageId) (source target : PackageId) : Prop where
  source_mem : source ∈ enabledPackages
  target_mem : target ∈ enabledPackages
  ne : source ≠ target

instance (enabledPackages : List PackageId) (source target : PackageId) :
    Decidable (Related enabledPackages source target) :=
  decidable_of_iff (source ∈ enabledPackages ∧ target ∈ enabledPackages ∧ source ≠ target)
    ⟨fun h => ⟨h.1, h.2.1, h.2.2⟩, fun h => ⟨h.1, h.2, h.3⟩⟩

structure ValidDeclarations (enabledPackages : List PackageId)
    (dependencies : List PackageDependency)
    (orderingConstraints : List PackageOrderConstraint) : Prop where
  nodup : enabledPackages.Nodup
  dependency : ∀ dependency ∈ dependencies,
    Related enabledPackages dependency.requiredPackage dependency.dependentPackage
  constraint : ∀ constraint ∈ orderingConstraints,
    Related enabledPackages constraint.beforePackage constraint.afterPackage

theorem forall_declaredEdge_iff {dependencies : List PackageDependency}
    {orderingConstraints : List PackageOrderConstraint} {holds : PackageId → PackageId → Prop} :
    (∀ source target, DeclaredEdge dependencies orderingConstraints source target →
        holds source target) ↔
      (∀ dependency ∈ dependencies,
        holds dependency.requiredPackage dependency.dependentPackage) ∧
      ∀ constraint ∈ orderingConstraints,
        holds constraint.beforePackage constraint.afterPackage := by
  constructor
  · intro all
    exact ⟨fun dependency member => all _ _ (.inl ⟨dependency, member, rfl, rfl⟩),
      fun constraint member => all _ _ (.inr ⟨constraint, member, rfl, rfl⟩)⟩
  · rintro ⟨dependency, constraint⟩ _ _ (⟨declared, member, rfl, rfl⟩ | ⟨declared, member, rfl, rfl⟩)
    · exact dependency declared member
    · exact constraint declared member

theorem ValidDeclarations.related {enabledPackages : List PackageId}
    {dependencies : List PackageDependency} {orderingConstraints : List PackageOrderConstraint}
    (valid : ValidDeclarations enabledPackages dependencies orderingConstraints)
    {source target : PackageId}
    (edge : DeclaredEdge dependencies orderingConstraints source target) :
    Related enabledPackages source target :=
  forall_declaredEdge_iff.mpr ⟨valid.dependency, valid.constraint⟩ source target edge

theorem ValidDeclarations.of_related {enabledPackages : List PackageId}
    {dependencies : List PackageDependency} {orderingConstraints : List PackageOrderConstraint}
    (nodup : enabledPackages.Nodup)
    (related : ∀ source target, DeclaredEdge dependencies orderingConstraints source target →
      Related enabledPackages source target) :
    ValidDeclarations enabledPackages dependencies orderingConstraints :=
  ⟨nodup, (forall_declaredEdge_iff.mp related).1, (forall_declaredEdge_iff.mp related).2⟩

theorem indexPackages_of_fresh {items : List (PackageId × PackageIndex)} {indexes : PackageIndexes}
    (nodup : (items.map Prod.fst).Nodup)
    (fresh : ∀ package ∈ items.map Prod.fst, package ∉ indexes) :
    indexPackages items indexes = .ok (indexes.emplaceAll items) := by
  induction items generalizing indexes with
  | nil => rfl
  | cons item items ih =>
    obtain ⟨package, index⟩ := item
    obtain ⟨first, nodup⟩ := List.nodup_cons.mp nodup
    have emplaced : indexes.emplace package index = (indexes.insert package index, true) := by
      rw [Map.emplace, if_neg (fresh package (by simp))]
    simp only [indexPackages, emplaced]
    rw [ih nodup]
    · simp [Map.emplaceAll, emplaced]
    · intro other member
      rw [AList.mem_insert, not_or]
      exact ⟨fun same => first (same ▸ member), fresh other (List.mem_cons_of_mem _ member)⟩

theorem indexPackages_of_not_fresh {items : List (PackageId × PackageIndex)}
    {indexes : PackageIndexes}
    (h : ¬ ((items.map Prod.fst).Nodup ∧ ∀ package ∈ items.map Prod.fst, package ∉ indexes)) :
    ∃ package, indexPackages items indexes = .error ⟨.duplicateEnabledPackage, [package]⟩ := by
  induction items generalizing indexes with
  | nil => simp at h
  | cons item items ih =>
    obtain ⟨package, index⟩ := item
    by_cases known : package ∈ indexes
    · exact ⟨package, by simp [indexPackages, Map.emplace, known]⟩
    · have rest : ¬ ((items.map Prod.fst).Nodup ∧
          ∀ other ∈ items.map Prod.fst, other ∉ indexes.insert package index) := by
        rintro ⟨nodup, fresh⟩
        refine h ⟨List.nodup_cons.mpr ⟨fun member => ?_, nodup⟩, fun other member => ?_⟩
        · exact fresh package member (by simp)
        · rcases List.mem_cons.mp member with rfl | member
          · exact known
          · exact fun old => fresh other member ((AList.mem_insert _).mpr (.inr old))
      obtain ⟨duplicate, ran⟩ := ih rest
      exact ⟨duplicate, by simp [indexPackages, Map.emplace, known, ran]⟩

theorem indexPackages_of_nodup {enabledPackages : List PackageId} (nodup : enabledPackages.Nodup) :
    indexPackages enabledPackages.zipIdx ∅ = .ok (Map.indexAll enabledPackages) :=
  indexPackages_of_fresh (by simpa using nodup) (by simp)

theorem indexPackages_of_not_nodup {enabledPackages : List PackageId}
    (duplicate : ¬ enabledPackages.Nodup) :
    ∃ package, indexPackages enabledPackages.zipIdx ∅ =
      .error ⟨.duplicateEnabledPackage, [package]⟩ :=
  indexPackages_of_not_fresh fun h => duplicate (by simpa using h.1)

theorem relate_of_related (errors : RelationErrors) {enabledPackages : List PackageId}
    {first second : PackageId} (h : Related enabledPackages first second) :
    relate errors (Map.indexAll enabledPackages) first second =
      .ok (enabledPackages.idxOf first, enabledPackages.idxOf second) := by
  have differs : enabledPackages.idxOf first ≠ enabledPackages.idxOf second :=
    fun same => h.ne ((List.idxOf_inj h.source_mem).mp same)
  simp [relate, Map.lookup_indexAll, h.source_mem, h.target_mem, differs]

theorem relate_of_not_related (errors : RelationErrors) {enabledPackages : List PackageId}
    {first second : PackageId} (h : ¬ Related enabledPackages first second) :
    ∃ error, relate errors (Map.indexAll enabledPackages) first second = .error error ∧
      (error.code = errors.firstNotEnabled ∨ error.code = errors.secondNotEnabled ∨
        error.code = errors.selfRelation) := by
  by_cases hf : first ∈ enabledPackages
  · by_cases hs : second ∈ enabledPackages
    · obtain rfl : first = second := by_contra fun ne => h ⟨hf, hs, ne⟩
      exact ⟨⟨errors.selfRelation, [first]⟩, by simp [relate, Map.lookup_indexAll, hf], by simp⟩
    · exact ⟨⟨errors.secondNotEnabled, [second]⟩,
        by simp [relate, Map.lookup_indexAll, hf, hs], by simp⟩
  · exact ⟨⟨errors.firstNotEnabled, [first]⟩, by simp [relate, Map.lookup_indexAll, hf], by simp⟩

structure RelationData.WellFormed (count : Nat) (data : RelationData) : Prop where
  length : data.adjacency.length = count
  inside : ∀ {source target}, (source, target) ∈ data.edges → source < count ∧ target < count
  edge_iff : ∀ {source target}, Edge data.adjacency source target ↔ (source, target) ∈ data.edges
  counts : CountsEdges data.adjacency data.indegrees

theorem children_set {adjacency : AdjacencyList} {source : PackageIndex}
    (inside : source < adjacency.length) (targets : List PackageIndex) (package : PackageIndex) :
    children (adjacency.set source targets) package =
      if package = source then targets else children adjacency package := by
  by_cases same : package = source
  · subst same; simp [children, List.getElem?_set_self inside]
  · simp [children, List.getElem?_set_ne (Ne.symm same), same]

theorem RelationData.WellFormed.initial (count : Nat) :
    RelationData.WellFormed count
      { edges := ∅, adjacency := List.replicate count [], indegrees := List.replicate count 0 } where
  length := by simp
  inside := by simp
  edge_iff := by
    intro source target
    by_cases inside : source < count <;> simp [Edge, children, inside]
  counts := by
    have empty : ∀ package, children (List.replicate count []) package = [] := by
      intro package
      by_cases inside : package < count <;> simp [children, inside]
    refine ⟨by simp, fun package => by simp [empty], fun package inside => ?_⟩
    have lt : package < count := by simpa using inside
    simp [predecessors, empty, lt]

def withEdge (adjacency : AdjacencyList) (source target : PackageIndex) : AdjacencyList :=
  adjacency.set source (children adjacency source ++ [target])

theorem edge_withEdge {adjacency : AdjacencyList} {source target : PackageIndex}
    (sourceLt : source < adjacency.length) {u v : PackageIndex} :
    Edge (withEdge adjacency source target) u v ↔
      Edge adjacency u v ∨ (u = source ∧ v = target) := by
  by_cases same : u = source
  · subst same; simp [Edge, withEdge, children_set sourceLt]
  · simp [Edge, withEdge, children_set sourceLt, same]

theorem CountsEdges.withEdge {adjacency : AdjacencyList} {indegrees : List Nat}
    {source target : PackageIndex} (counts : CountsEdges adjacency indegrees)
    (sourceLt : source < adjacency.length) (targetLt : target < adjacency.length)
    (fresh : target ∉ children adjacency source) :
    CountsEdges (withEdge adjacency source target)
      (indegrees.set target ((predecessors adjacency [] target).card + 1)) := by
  refine ⟨by simpa [PackageDependencyGraph.withEdge] using counts.length, ?_, ?_⟩
  · intro package
    rw [PackageDependencyGraph.withEdge, children_set sourceLt]
    split
    · exact (counts.nodup source).append (List.nodup_singleton _)
        (List.disjoint_singleton.mpr fresh)
    · exact counts.nodup package
  · intro package inside
    rw [PackageDependencyGraph.withEdge, List.length_set] at inside
    by_cases same : package = target
    · subst same
      have grown :
          predecessors (PackageDependencyGraph.withEdge adjacency source package) [] package =
          insert source (predecessors adjacency [] package) := by
        ext u; simp [mem_predecessors, edge_withEdge sourceLt, or_comm]
      have new : source ∉ predecessors adjacency [] package :=
        fun h => fresh (mem_predecessors.mp h).1
      rw [grown, Finset.card_insert_of_notMem new, List.getElem?_set_self (counts.length ▸ targetLt)]
    · have unchanged :
          predecessors (PackageDependencyGraph.withEdge adjacency source target) [] package =
          predecessors adjacency [] package := by
        ext u; simp [mem_predecessors, edge_withEdge sourceLt, same]
      rw [unchanged, List.getElem?_set_ne (Ne.symm same)]
      exact counts.indegree package inside

theorem addEdge_spec {count : Nat} {data : RelationData} (wf : data.WellFormed count)
    {source target : PackageIndex} (sourceLt : source < count) (targetLt : target < count) :
    ∃ next, addEdge source target data = .ok next ∧ next.WellFormed count ∧
      next.edges = insert (source, target) data.edges := by
  by_cases known : (source, target) ∈ data.edges
  · exact ⟨data, by simp [addEdge, known]; rfl, wf, (Finset.insert_eq_of_mem known).symm⟩
  · have sourceLt' : source < data.adjacency.length := wf.length.symm ▸ sourceLt
    have targetLt' : target < data.adjacency.length := wf.length.symm ▸ targetLt
    have targetLt'' : target < data.indegrees.length := wf.counts.length ▸ targetLt'
    have fresh : target ∉ children data.adjacency source := fun h => known (wf.edge_iff.mp h)
    refine ⟨⟨insert (source, target) data.edges, withEdge data.adjacency source target,
      data.indegrees.set target ((predecessors data.adjacency [] target).card + 1)⟩, ?_, ?_, rfl⟩
    · simp only [addEdge, if_neg known, children_of_lt sourceLt', checkedSet_of_lt _ sourceLt',
        checkedAt_eq_ok.mpr (wf.counts.indegree target targetLt'),
        checkedSet_of_lt _ targetLt'', Checked.ok_bind]
      rfl
    · refine ⟨by simpa [withEdge] using wf.length, ?_, ?_,
        wf.counts.withEdge sourceLt' targetLt' fresh⟩
      · intro u v h
        rcases Finset.mem_insert.mp h with same | old
        · obtain ⟨rfl, rfl⟩ := Prod.mk.inj same; exact ⟨sourceLt, targetLt⟩
        · exact wf.inside old
      · intro u v
        rw [edge_withEdge sourceLt', wf.edge_iff, Finset.mem_insert, Prod.mk.injEq, or_comm]

structure Declares {δ : Type} (enabledPackages : List PackageId) (source target : δ → PackageId)
    (add : RelationData → δ → Checked (Except PackageGraphError RelationData)) : Prop where
  accepts : ∀ data declaration, Related enabledPackages (source declaration) (target declaration) →
    add data declaration = .ok <$> addEdge (enabledPackages.idxOf (source declaration))
      (enabledPackages.idxOf (target declaration)) data
  rejects : ∀ data declaration, ¬ Related enabledPackages (source declaration) (target declaration) →
    ∃ error, add data declaration = .ok (.error error) ∧ error.code ≠ .cycle

theorem Related.symm {enabledPackages : List PackageId} {source target : PackageId}
    (h : Related enabledPackages source target) : Related enabledPackages target source :=
  ⟨h.target_mem, h.source_mem, h.ne.symm⟩

theorem declares_addDependency (enabledPackages : List PackageId) :
    Declares enabledPackages PackageDependency.requiredPackage PackageDependency.dependentPackage
      (addDependency (Map.indexAll enabledPackages)) where
  accepts data dependency h := by
    simp only [addDependency, relate_of_related _ h.symm]
  rejects data dependency h := by
    obtain ⟨error, ran, code⟩ := relate_of_not_related
      ⟨.dependentPackageNotEnabled, .requiredPackageNotEnabled, .selfDependency⟩
      fun related => h (Related.symm related)
    exact ⟨error, by simp only [addDependency, ran], by rcases code with h | h | h <;> simp [h]⟩

theorem declares_addConstraint (enabledPackages : List PackageId) :
    Declares enabledPackages PackageOrderConstraint.beforePackage
      PackageOrderConstraint.afterPackage (addConstraint (Map.indexAll enabledPackages)) where
  accepts data constraint h := by
    simp only [addConstraint, relate_of_related _ h]
  rejects data constraint h := by
    obtain ⟨error, ran, code⟩ := relate_of_not_related
      ⟨.orderingPackageNotEnabled, .orderingPackageNotEnabled, .selfOrdering⟩ h
    exact ⟨error, by simp only [addConstraint, ran], by rcases code with h | h | h <;> simp [h]⟩

theorem Declares.addAll_of_related {δ : Type} {enabledPackages : List PackageId}
    {source target : δ → PackageId}
    {add : RelationData → δ → Checked (Except PackageGraphError RelationData)}
    (declares : Declares enabledPackages source target add) {declarations : List δ}
    {data : RelationData} (wf : data.WellFormed enabledPackages.length)
    (related : ∀ declaration ∈ declarations,
      Related enabledPackages (source declaration) (target declaration)) :
    ∃ next, addAll add declarations data = .ok (.ok next) ∧
      next.WellFormed enabledPackages.length ∧
      ∀ edge, edge ∈ next.edges ↔ edge ∈ data.edges ∨ ∃ declaration ∈ declarations,
        edge = (enabledPackages.idxOf (source declaration),
          enabledPackages.idxOf (target declaration)) := by
  induction declarations generalizing data with
  | nil => exact ⟨data, rfl, wf, by simp⟩
  | cons declaration declarations ih =>
    have first := related declaration (by simp)
    obtain ⟨added, ran, wf', edges⟩ := addEdge_spec wf
      (List.idxOf_lt_length_iff.mpr first.source_mem) (List.idxOf_lt_length_iff.mpr first.target_mem)
    obtain ⟨next, looped, wf'', edges'⟩ := ih wf' fun other member =>
      related other (List.mem_cons_of_mem _ member)
    refine ⟨next, ?_, wf'', fun edge => ?_⟩
    · rw [addAll, declares.accepts data declaration first, ran]
      exact looped
    · simp only [edges', edges, Finset.mem_insert, List.mem_cons, exists_eq_or_imp, or_assoc]
      exact or_left_comm

theorem Declares.addAll_of_not_related {δ : Type} {enabledPackages : List PackageId}
    {source target : δ → PackageId}
    {add : RelationData → δ → Checked (Except PackageGraphError RelationData)}
    (declares : Declares enabledPackages source target add) {declarations : List δ}
    {data : RelationData} (wf : data.WellFormed enabledPackages.length)
    (unrelated : ¬ ∀ declaration ∈ declarations,
      Related enabledPackages (source declaration) (target declaration)) :
    ∃ error, addAll add declarations data = .ok (.error error) ∧ error.code ≠ .cycle := by
  induction declarations generalizing data with
  | nil => simp at unrelated
  | cons declaration declarations ih =>
    by_cases first : Related enabledPackages (source declaration) (target declaration)
    · obtain ⟨added, ran, wf', _⟩ := addEdge_spec wf
        (List.idxOf_lt_length_iff.mpr first.source_mem)
        (List.idxOf_lt_length_iff.mpr first.target_mem)
      obtain ⟨error, looped, code⟩ := ih wf' fun rest => unrelated (by simpa using ⟨first, rest⟩)
      refine ⟨error, ?_, code⟩
      rw [addAll, declares.accepts data declaration first, ran]
      exact looped
    · obtain ⟨error, ran, code⟩ := declares.rejects data declaration first
      exact ⟨error, by rw [addAll, ran]; rfl, code⟩

def sortChildren (adjacency : AdjacencyList) : AdjacencyList :=
  adjacency.map (List.insertionSort (· ≤ ·))

theorem children_sortChildren (adjacency : AdjacencyList) (package : PackageIndex) :
    (children (sortChildren adjacency) package).Perm (children adjacency package) := by
  rw [children, children, sortChildren, List.getElem?_map]
  cases adjacency[package]? with
  | none => simp
  | some targets => simpa using List.perm_insertionSort _ targets

theorem edge_sortChildren {adjacency : AdjacencyList} {source target : PackageIndex} :
    Edge (sortChildren adjacency) source target ↔ Edge adjacency source target :=
  (children_sortChildren adjacency source).mem_iff

theorem CountsEdges.sortChildren {adjacency : AdjacencyList} {indegrees : List Nat}
    (counts : CountsEdges adjacency indegrees) :
    CountsEdges (sortChildren adjacency) indegrees where
  length := by simpa [PackageDependencyGraph.sortChildren] using counts.length
  nodup package := (children_sortChildren adjacency package).nodup_iff.mpr (counts.nodup package)
  indegree := by
    intro package inside
    have same : predecessors (PackageDependencyGraph.sortChildren adjacency) [] package =
        predecessors adjacency [] package := by
      ext source; simp [mem_predecessors, edge_sortChildren]
    rw [same]
    exact counts.indegree package (by simpa [PackageDependencyGraph.sortChildren] using inside)

def Indexes (enabledPackages : List PackageId) (edge : PackageId → PackageId → Prop)
    (adjacency : AdjacencyList) : Prop :=
  ∀ u v, Edge adjacency u v ↔ ∃ source target, edge source target ∧
    u = enabledPackages.idxOf source ∧ v = enabledPackages.idxOf target

theorem Indexes.acyclic_iff {enabledPackages : List PackageId} {adjacency : AdjacencyList}
    {edge : PackageId → PackageId → Prop} (indexes : Indexes enabledPackages edge adjacency)
    (related : ∀ {source target}, edge source target → Related enabledPackages source target) :
    Acyclic (Edge adjacency) ↔ Acyclic edge := by
  constructor
  · exact Acyclic.comap enabledPackages.idxOf fun step => (indexes _ _).mpr ⟨_, _, step, rfl, rfl⟩
  · refine Acyclic.comap (fun index => enabledPackages[index]?.getD ⟨[]⟩) fun {u v} step => ?_
    obtain ⟨source, target, declared, rfl, rfl⟩ := (indexes u v).mp step
    have h := related declared
    rwa [List.getElem?_eq_getElem (List.idxOf_lt_length_iff.mpr h.source_mem),
      List.getElem?_eq_getElem (List.idxOf_lt_length_iff.mpr h.target_mem),
      List.getElem_idxOf, List.getElem_idxOf]

theorem map_idxOf_of_names {enabledPackages : List PackageId} (nodup : enabledPackages.Nodup)
    {emitted : List PackageIndex} {order : List PackageId}
    (names : emitted.map (enabledPackages[·]?) = order.map some) :
    order.map enabledPackages.idxOf = emitted := by
  induction emitted generalizing order with
  | nil => simpa using names.symm
  | cons index emitted ih =>
    cases order with
    | nil => simp at names
    | cons package order =>
      obtain ⟨first, rest⟩ := List.cons.inj names
      obtain ⟨inside, rfl⟩ := List.getElem?_eq_some_iff.mp first
      rw [List.map_cons, nodup.idxOf_getElem, ih rest]

theorem map_idxOf_self {enabledPackages : List PackageId} (nodup : enabledPackages.Nodup) :
    enabledPackages.map enabledPackages.idxOf = List.range enabledPackages.length :=
  map_idxOf_of_names nodup (by apply List.ext_getElem <;> simp)

theorem perm_of_names {enabledPackages order : List PackageId} {emitted : List PackageIndex}
    (names : emitted.map (enabledPackages[·]?) = order.map some)
    (perm : emitted.Perm (List.range enabledPackages.length)) : order.Perm enabledPackages := by
  have listed : (List.range enabledPackages.length).map (enabledPackages[·]?) =
      enabledPackages.map some := by
    apply List.ext_getElem <;> simp
  have mapped := perm.map (enabledPackages[·]?)
  rw [names, listed] at mapped
  exact (List.map_perm_map_iff (Option.some_injective _)).mp mapped

structure IsLoadOrder (enabledPackages : List PackageId) (dependencies : List PackageDependency)
    (orderingConstraints : List PackageOrderConstraint) (order : List PackageId) : Prop where
  perm : order.Perm enabledPackages
  required_before : ∀ dependency ∈ dependencies,
    order.idxOf dependency.requiredPackage < order.idxOf dependency.dependentPackage
  constraint_before : ∀ constraint ∈ orderingConstraints,
    order.idxOf constraint.beforePackage < order.idxOf constraint.afterPackage

section ValidDeclarations

variable {enabledPackages : List PackageId} {dependencies : List PackageDependency}
  {orderingConstraints : List PackageOrderConstraint}

theorem IsLoadOrder.before {order : List PackageId}
    (load : IsLoadOrder enabledPackages dependencies orderingConstraints order)
    {source target : PackageId}
    (step : DeclaredEdge dependencies orderingConstraints source target) :
    order.idxOf source < order.idxOf target := by
  have all : ∀ source target, DeclaredEdge dependencies orderingConstraints source target →
      order.idxOf source < order.idxOf target :=
    forall_declaredEdge_iff.mpr ⟨load.required_before, load.constraint_before⟩
  exact all source target step

theorem IsLoadOrder.of_before {order : List PackageId} (perm : order.Perm enabledPackages)
    (before : ∀ source target, DeclaredEdge dependencies orderingConstraints source target →
      order.idxOf source < order.idxOf target) :
    IsLoadOrder enabledPackages dependencies orderingConstraints order :=
  ⟨perm, (forall_declaredEdge_iff.mp before).1, (forall_declaredEdge_iff.mp before).2⟩

theorem ValidDeclarations.isLoadOrder_iff
    (valid : ValidDeclarations enabledPackages dependencies orderingConstraints)
    {order : List PackageId} (perm : order.Perm enabledPackages) :
    IsLoadOrder enabledPackages dependencies orderingConstraints order ↔
      Respects (DeclaredEdge dependencies orderingConstraints) order := by
  have inside : ∀ {a b}, DeclaredEdge dependencies orderingConstraints a b → a ∈ order ∧ b ∈ order :=
    fun step => ⟨perm.mem_iff.mpr (valid.related step).source_mem,
      perm.mem_iff.mpr (valid.related step).target_mem⟩
  rw [respects_iff_idxOf (perm.nodup_iff.mpr valid.nodup) inside
    fun package step => (valid.related step).ne rfl]
  exact ⟨fun load _ _ step => load.before step, IsLoadOrder.of_before perm⟩

/-- The least load order, comparing packages by their position in the enabled list. -/
def IsLeastLoadOrder (enabledPackages : List PackageId) (dependencies : List PackageDependency)
    (orderingConstraints : List PackageOrderConstraint) (order : List PackageId) : Prop :=
  IsLoadOrder enabledPackages dependencies orderingConstraints order ∧
    ∀ other, IsLoadOrder enabledPackages dependencies orderingConstraints other →
      order.map enabledPackages.idxOf ≤ other.map enabledPackages.idxOf

theorem Indexes.respects_map_idxOf {adjacency : AdjacencyList}
    (indexes : Indexes enabledPackages (DeclaredEdge dependencies orderingConstraints) adjacency)
    {order : List PackageId} (perm : order.Perm enabledPackages) :
    Respects (Edge adjacency) (order.map enabledPackages.idxOf) ↔
      Respects (DeclaredEdge dependencies orderingConstraints) order := by
  rw [Respects, List.pairwise_map, Respects]
  refine ⟨fun h => h.imp_of_mem ?_, fun h => h.imp_of_mem ?_⟩
  · intro earlier later _ _ free step
    exact free ((indexes _ _).mpr ⟨later, earlier, step, rfl, rfl⟩)
  · intro earlier later inEarlier inLater free step
    obtain ⟨source, target, declared, sameSource, sameTarget⟩ := (indexes _ _).mp step
    rw [List.idxOf_inj (perm.subset inLater)] at sameSource
    rw [List.idxOf_inj (perm.subset inEarlier)] at sameTarget
    exact free (sameSource ▸ sameTarget ▸ declared)

theorem ResolvedIndexes.isLeastLoadOrder
    (valid : ValidDeclarations enabledPackages dependencies orderingConstraints)
    {adjacency : AdjacencyList} (length : adjacency.length = enabledPackages.length)
    (indexes : Indexes enabledPackages (DeclaredEdge dependencies orderingConstraints) adjacency)
    (acyclic : Acyclic (Edge adjacency)) {order : List PackageId} {emitted : List PackageIndex}
    (resolved : ResolvedIndexes enabledPackages adjacency order emitted) :
    IsLeastLoadOrder enabledPackages dependencies orderingConstraints order := by
  have emittedPerm := resolved.perm acyclic
  have perm := perm_of_names resolved.names (length ▸ emittedPerm)
  have positions := map_idxOf_of_names valid.nodup resolved.names
  constructor
  · rw [valid.isLoadOrder_iff perm, ← indexes.respects_map_idxOf perm, positions]
    exact resolved.greedy.respects resolved.nodup resolved.inside
  · intro other load
    have otherPerm : (other.map enabledPackages.idxOf).Perm (List.range adjacency.length) := by
      rw [length, ← map_idxOf_self valid.nodup]
      exact load.perm.map _
    have respects := (indexes.respects_map_idxOf load.perm).mpr
      ((valid.isLoadOrder_iff load.perm).mp load)
    rw [positions]
    exact resolved.greedy.le (fun index step => acyclic index (.single step)) emittedPerm
      (otherPerm.nodup_iff.mpr List.nodup_range) otherPerm respects

theorem create_of_not_valid
    (invalid : ¬ ValidDeclarations enabledPackages dependencies orderingConstraints) :
    ∃ error, create enabledPackages dependencies orderingConstraints = .ok (.error error) ∧
      error.code ≠ .cycle := by
  by_cases nodup : enabledPackages.Nodup
  · have wf := RelationData.WellFormed.initial enabledPackages.length
    by_cases related : ∀ dependency ∈ dependencies,
        Related enabledPackages dependency.requiredPackage dependency.dependentPackage
    · obtain ⟨data, ran, wf', _⟩ :=
        (declares_addDependency enabledPackages).addAll_of_related wf related
      obtain ⟨error, ran', code⟩ := (declares_addConstraint enabledPackages).addAll_of_not_related wf'
        fun constraint => invalid ⟨nodup, related, constraint⟩
      refine ⟨error, ?_, code⟩
      simp only [create, indexPackages_of_nodup nodup, ran, ran', Checked.ok_bind]
      rfl
    · obtain ⟨error, ran, code⟩ :=
        (declares_addDependency enabledPackages).addAll_of_not_related wf related
      refine ⟨error, ?_, code⟩
      simp only [create, indexPackages_of_nodup nodup, ran, Checked.ok_bind]
      rfl
  · obtain ⟨package, ran⟩ := indexPackages_of_not_nodup nodup
    exact ⟨⟨.duplicateEnabledPackage, [package]⟩, by simp only [create, ran]; rfl, nofun⟩

theorem RelationData.WellFormed.validAdjacency {count : Nat} {data : RelationData}
    (wf : data.WellFormed count) : ValidAdjacency count (sortChildren data.adjacency) where
  length := by simpa [sortChildren] using wf.length
  target_lt step := (wf.inside (wf.edge_iff.mp (edge_sortChildren.mp step))).2

inductive Outcome (enabledPackages : List PackageId) (dependencies : List PackageDependency)
    (orderingConstraints : List PackageOrderConstraint) (adjacency : AdjacencyList)
    (indegrees : List Nat) : Prop where
  | cyclic {packages : List PackageId}
      (found : findCycle enabledPackages adjacency = .ok (some packages))
      (cycle : IsCycle enabledPackages adjacency packages)
      (created : create enabledPackages dependencies orderingConstraints =
        .ok (.error ⟨.cycle, packages⟩))
  | resolved {order : List PackageId} {emitted : List PackageIndex}
      (found : findCycle enabledPackages adjacency = .ok none)
      (acyclic : Acyclic (Edge adjacency))
      (ran : resolveOrder enabledPackages adjacency indegrees = .ok order)
      (indexes : ResolvedIndexes enabledPackages adjacency order emitted)
      (created : create enabledPackages dependencies orderingConstraints =
        .ok (.ok ⟨enabledPackages, dependencies, orderingConstraints, order⟩))

theorem ValidDeclarations.outcome
    (valid : ValidDeclarations enabledPackages dependencies orderingConstraints) :
    ∃ data : RelationData, data.WellFormed enabledPackages.length ∧
      (∀ u v, (u, v) ∈ data.edges ↔
        ∃ source target, DeclaredEdge dependencies orderingConstraints source target ∧
          u = enabledPackages.idxOf source ∧ v = enabledPackages.idxOf target) ∧
      Outcome enabledPackages dependencies orderingConstraints (sortChildren data.adjacency)
        data.indegrees := by
  obtain ⟨data, ran, wf, edges⟩ := (declares_addDependency enabledPackages).addAll_of_related
    (RelationData.WellFormed.initial enabledPackages.length) valid.dependency
  obtain ⟨data', ran', wf', edges'⟩ :=
    (declares_addConstraint enabledPackages).addAll_of_related wf valid.constraint
  refine ⟨data', wf', fun u v => ?_, ?_⟩
  · rw [edges', edges]
    constructor
    · rintro ((none | ⟨dependency, member, same⟩) | ⟨constraint, member, same⟩)
      · simp at none
      · obtain ⟨rfl, rfl⟩ := Prod.mk.inj same
        exact ⟨_, _, .inl ⟨dependency, member, rfl, rfl⟩, rfl, rfl⟩
      · obtain ⟨rfl, rfl⟩ := Prod.mk.inj same
        exact ⟨_, _, .inr ⟨constraint, member, rfl, rfl⟩, rfl, rfl⟩
    · rintro ⟨_, _, ⟨dependency, member, rfl, rfl⟩ | ⟨constraint, member, rfl, rfl⟩, rfl, rfl⟩
      · exact .inl (.inr ⟨dependency, member, rfl⟩)
      · exact .inr ⟨constraint, member, rfl⟩
  · have validAdjacency := wf'.validAdjacency
    obtain ⟨result, found, meaning⟩ := findCycle_spec validAdjacency
    have searched : findCycle enabledPackages
        (data'.adjacency.map (List.insertionSort (· ≤ ·))) = .ok result := found
    cases result with
    | some packages =>
      refine .cyclic found meaning ?_
      simp only [create, indexPackages_of_nodup valid.nodup, ran, ran', searched, Checked.ok_bind]
      rfl
    | none =>
      obtain ⟨order, resolved, emitted, indexes⟩ :=
        resolveOrder_spec validAdjacency wf'.counts.sortChildren
      have scheduled : resolveOrder enabledPackages
          (data'.adjacency.map (List.insertionSort (· ≤ ·))) data'.indegrees = .ok order := resolved
      refine .resolved found meaning resolved indexes ?_
      simp only [create, indexPackages_of_nodup valid.nodup, ran, ran', searched, scheduled,
        Checked.ok_bind]
      rfl

theorem RelationData.WellFormed.indexes {data : RelationData}
    (wf : data.WellFormed enabledPackages.length)
    (edges : ∀ u v, (u, v) ∈ data.edges ↔
      ∃ source target, DeclaredEdge dependencies orderingConstraints source target ∧
        u = enabledPackages.idxOf source ∧ v = enabledPackages.idxOf target) :
    Indexes enabledPackages (DeclaredEdge dependencies orderingConstraints)
      (sortChildren data.adjacency) := by
  intro u v
  rw [edge_sortChildren, wf.edge_iff, edges]

theorem ValidDeclarations.create_of_acyclic
    (valid : ValidDeclarations enabledPackages dependencies orderingConstraints)
    (acyclic : Acyclic (DeclaredEdge dependencies orderingConstraints)) :
    ∃ resolvedOrder, create enabledPackages dependencies orderingConstraints =
        .ok (.ok { enabledPackages, dependencies, orderingConstraints, resolvedOrder }) ∧
      IsLeastLoadOrder enabledPackages dependencies orderingConstraints resolvedOrder := by
  obtain ⟨data, wf, edges, outcome⟩ := valid.outcome
  have indexes := wf.indexes edges
  cases outcome with
  | cyclic _ cycle _ =>
    obtain ⟨package, closed⟩ := cycle.transGen
    exact absurd closed ((indexes.acyclic_iff valid.related).mpr acyclic package)
  | @resolved order emitted _ acyclic' _ resolved created =>
    exact ⟨order, created,
      resolved.isLeastLoadOrder valid wf.validAdjacency.length indexes acyclic'⟩

theorem ValidDeclarations.create_of_not_acyclic
    (valid : ValidDeclarations enabledPackages dependencies orderingConstraints)
    (cyclic : ¬ Acyclic (DeclaredEdge dependencies orderingConstraints)) :
    ∃ cycle, create enabledPackages dependencies orderingConstraints =
      .ok (.error ⟨.cycle, cycle⟩) := by
  obtain ⟨data, wf, edges, outcome⟩ := valid.outcome
  cases outcome with
  | cyclic _ _ created => exact ⟨_, created⟩
  | resolved _ acyclic _ _ _ =>
    exact absurd (((wf.indexes edges).acyclic_iff valid.related).mp acyclic) cyclic

end ValidDeclarations

structure Created (enabledPackages : List PackageId) (dependencies : List PackageDependency)
    (orderingConstraints : List PackageOrderConstraint) (graph : PackageDependencyGraph) : Prop where
  valid : ValidDeclarations enabledPackages dependencies orderingConstraints
  acyclic : Acyclic (DeclaredEdge dependencies orderingConstraints)
  least : IsLeastLoadOrder enabledPackages dependencies orderingConstraints graph.resolvedOrder

theorem created_of_create {enabledPackages : List PackageId} {dependencies : List PackageDependency}
    {orderingConstraints : List PackageOrderConstraint} {graph : PackageDependencyGraph}
    (h : create enabledPackages dependencies orderingConstraints = .ok (.ok graph)) :
    Created enabledPackages dependencies orderingConstraints graph := by
  by_cases valid : ValidDeclarations enabledPackages dependencies orderingConstraints
  · by_cases acyclic : Acyclic (DeclaredEdge dependencies orderingConstraints)
    · obtain ⟨order, ran, least⟩ := valid.create_of_acyclic acyclic
      obtain rfl := Except.ok.inj (Except.ok.inj (ran.symm.trans h))
      exact ⟨valid, acyclic, least⟩
    · obtain ⟨cycle, ran⟩ := valid.create_of_not_acyclic acyclic
      cases ran.symm.trans h
  · obtain ⟨error, ran, _⟩ := create_of_not_valid valid
    cases ran.symm.trans h

/-- The created order is the least permutation of the enabled packages in which required
packages precede their dependents and constraints are kept. -/
theorem create_resolves_least_load_order (enabledPackages : List PackageId)
    (dependencies : List PackageDependency) (orderingConstraints : List PackageOrderConstraint)
    (graph : PackageDependencyGraph)
    (h : create enabledPackages dependencies orderingConstraints = .ok (.ok graph)) :
    IsLoadOrder enabledPackages dependencies orderingConstraints graph.resolvedOrder ∧
      ∀ other, IsLoadOrder enabledPackages dependencies orderingConstraints other →
        graph.resolvedOrder.map enabledPackages.idxOf ≤ other.map enabledPackages.idxOf :=
  (created_of_create h).least

theorem create_resolves_least_load_order_of_three :
    IsLoadOrder [⟨[1]⟩, ⟨[2]⟩, ⟨[3]⟩] [⟨⟨[1]⟩, ⟨[3]⟩⟩] [⟨⟨[2]⟩, ⟨[3]⟩⟩] [⟨[2]⟩, ⟨[3]⟩, ⟨[1]⟩] ∧
      ∀ other, IsLoadOrder [⟨[1]⟩, ⟨[2]⟩, ⟨[3]⟩] [⟨⟨[1]⟩, ⟨[3]⟩⟩] [⟨⟨[2]⟩, ⟨[3]⟩⟩] other →
        [1, 2, 0] ≤ other.map (List.idxOf · [⟨[1]⟩, ⟨[2]⟩, ⟨[3]⟩]) :=
  create_resolves_least_load_order [⟨[1]⟩, ⟨[2]⟩, ⟨[3]⟩] [⟨⟨[1]⟩, ⟨[3]⟩⟩] [⟨⟨[2]⟩, ⟨[3]⟩⟩]
    { enabledPackages := [⟨[1]⟩, ⟨[2]⟩, ⟨[3]⟩]
      dependencies := [⟨⟨[1]⟩, ⟨[3]⟩⟩]
      orderingConstraints := [⟨⟨[2]⟩, ⟨[3]⟩⟩]
      resolvedOrder := [⟨[2]⟩, ⟨[3]⟩, ⟨[1]⟩] } (by decide)

theorem create_succeeds_iff (enabledPackages : List PackageId)
    (dependencies : List PackageDependency) (orderingConstraints : List PackageOrderConstraint) :
    ((∃ graph, create enabledPackages dependencies orderingConstraints = .ok (.ok graph)) ↔
      ValidDeclarations enabledPackages dependencies orderingConstraints ∧
        Acyclic (DeclaredEdge dependencies orderingConstraints)) ∧
    ((∃ cycle, create enabledPackages dependencies orderingConstraints =
        .ok (.error ⟨.cycle, cycle⟩)) ↔
      ValidDeclarations enabledPackages dependencies orderingConstraints ∧
        ¬ Acyclic (DeclaredEdge dependencies orderingConstraints)) := by
  constructor
  · constructor
    · rintro ⟨graph, h⟩
      exact ⟨(created_of_create h).valid, (created_of_create h).acyclic⟩
    · rintro ⟨valid, acyclic⟩
      obtain ⟨order, ran, _⟩ := valid.create_of_acyclic acyclic
      exact ⟨_, ran⟩
  · constructor
    · rintro ⟨cycle, h⟩
      by_cases valid : ValidDeclarations enabledPackages dependencies orderingConstraints
      · refine ⟨valid, fun acyclic => ?_⟩
        obtain ⟨order, ran, _⟩ := valid.create_of_acyclic acyclic
        cases ran.symm.trans h
      · obtain ⟨error, ran, code⟩ := create_of_not_valid valid
        obtain rfl := Except.error.inj (Except.ok.inj (ran.symm.trans h))
        exact absurd rfl code
    · rintro ⟨valid, cyclic⟩
      exact valid.create_of_not_acyclic cyclic

end FastModManager.Domain.PackageDependencyGraph
