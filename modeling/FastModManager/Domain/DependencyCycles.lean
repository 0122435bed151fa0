import FastModManager.Domain.PackageDependencyGraphLaws

namespace FastModManager.Domain.PackageDependencyGraph

open Foundation

/-- A simple closed walk along declared edges, with its first package again at the end. -/
structure IsDeclaredCycle (enabledPackages : List PackageId) (dependencies : List PackageDependency)
    (orderingConstraints : List PackageOrderConstraint) (cycle : List PackageId) : Prop where
  long : 3 ≤ cycle.length
  closed : cycle.head? = cycle.getLast?
  distinct : cycle.dropLast.Nodup
  enabled : ∀ package ∈ cycle.dropLast, package ∈ enabledPackages
  declared : ∀ (position : Nat) (u v : PackageId),
    cycle[position]? = some u → cycle[position + 1]? = some v →
    (∃ dependency ∈ dependencies,
      dependency.dependentPackage = v ∧ dependency.requiredPackage = u) ∨
    ∃ constraint ∈ orderingConstraints,
      constraint.beforePackage = u ∧ constraint.afterPackage = v

theorem mem_of_names {enabledPackages order : List PackageId} {emitted : List PackageIndex}
    (names : emitted.map (enabledPackages[·]?) = order.map some) :
    ∀ package ∈ order, package ∈ enabledPackages := by
  intro package member
  have named : some package ∈ emitted.map (enabledPackages[·]?) := by
    rw [names]
    exact List.mem_map_of_mem member
  obtain ⟨index, _, found⟩ := List.mem_map.mp named
  exact List.mem_of_getElem? found

section ReportedCycle

variable {enabledPackages : List PackageId} {dependencies : List PackageDependency}
  {orderingConstraints : List PackageOrderConstraint} {adjacency : AdjacencyList}

theorem Indexes.isChain
    (indexes : Indexes enabledPackages (DeclaredEdge dependencies orderingConstraints) adjacency)
    {packages : List PackageId} (inside : ∀ package ∈ packages, package ∈ enabledPackages)
    (chain : (packages.map enabledPackages.idxOf).IsChain (Edge adjacency)) :
    packages.IsChain (DeclaredEdge dependencies orderingConstraints) := by
  apply List.IsChain.imp_of_mem_imp _ ((List.isChain_map _).mp chain)
  intro u v memberU memberV step
  obtain ⟨source, target, declared, sameSource, sameTarget⟩ := (indexes _ _).mp step
  rw [List.idxOf_inj (inside u memberU)] at sameSource
  rw [List.idxOf_inj (inside v memberV)] at sameTarget
  exact sameSource ▸ sameTarget ▸ declared

theorem IsCycle.packages (nodup : enabledPackages.Nodup)
    (indexes : Indexes enabledPackages (DeclaredEdge dependencies orderingConstraints) adjacency)
    {cycle : List PackageId} (found : IsCycle enabledPackages adjacency cycle) :
    ∃ first walk, cycle = first :: walk ++ [first] ∧ (first :: walk).Nodup ∧
      (∀ package ∈ cycle, package ∈ enabledPackages) ∧
      cycle.IsChain (DeclaredEdge dependencies orderingConstraints) := by
  obtain ⟨start, path, distinct, chain, names⟩ := found
  have inside := mem_of_names names
  have positions := map_idxOf_of_names nodup names
  obtain ⟨simple, last, rfl, simplePositions, lastPosition⟩ := List.map_eq_append_iff.mp positions
  obtain ⟨first, walk, rfl, sameStart, _⟩ := List.map_eq_cons_iff.mp simplePositions
  obtain ⟨again, rest, rfl, sameEnd, empty⟩ := List.map_eq_cons_iff.mp lastPosition
  obtain rfl := List.map_eq_nil_iff.mp empty
  have same : first = again :=
    (List.idxOf_inj (inside first (by simp))).mp (sameStart.trans sameEnd.symm)
  subst same
  refine ⟨first, walk, rfl, ?_, inside, ?_⟩
  · rw [← simplePositions] at distinct
    exact distinct.of_map
  · apply indexes.isChain inside
    rw [positions]
    exact chain

theorem ValidDeclarations.isDeclaredCycle
    (valid : ValidDeclarations enabledPackages dependencies orderingConstraints)
    (indexes : Indexes enabledPackages (DeclaredEdge dependencies orderingConstraints) adjacency)
    {cycle : List PackageId} (found : IsCycle enabledPackages adjacency cycle) :
    IsDeclaredCycle enabledPackages dependencies orderingConstraints cycle := by
  obtain ⟨first, walk, rfl, distinct, inside, chain⟩ := found.packages valid.nodup indexes
  constructor
  · cases walk with
    | nil =>
      obtain ⟨loop, _⟩ := List.isChain_cons_cons.mp chain
      exact absurd rfl (valid.related loop).ne
    | cons second walk => simp
  · rw [List.getLast?_concat]
    rfl
  · rwa [List.dropLast_concat]
  · intro package member
    exact inside package (List.mem_of_mem_dropLast member)
  · intro position u v here next
    obtain ⟨before, rfl⟩ := List.getElem?_eq_some_iff.mp here
    obtain ⟨behind, rfl⟩ := List.getElem?_eq_some_iff.mp next
    rcases List.isChain_iff_getElem.mp chain position behind with
      ⟨dependency, member, required, dependent⟩ | ⟨constraint, member, earlier, later⟩
    · exact .inl ⟨dependency, member, dependent, required⟩
    · exact .inr ⟨constraint, member, earlier, later⟩

end ReportedCycle

theorem create_reports_declared_cycle (enabledPackages : List PackageId)
    (dependencies : List PackageDependency) (orderingConstraints : List PackageOrderConstraint)
    (cycle : List PackageId)
    (h : create enabledPackages dependencies orderingConstraints = .ok (.error ⟨.cycle, cycle⟩)) :
    IsDeclaredCycle enabledPackages dependencies orderingConstraints cycle := by
  by_cases valid : ValidDeclarations enabledPackages dependencies orderingConstraints
  · obtain ⟨data, wf, edges, outcome⟩ := valid.outcome
    cases outcome with
    | cyclic _ found created =>
      cases created.symm.trans h
      exact valid.isDeclaredCycle (wf.indexes edges) found
    | resolved _ _ _ _ created => cases created.symm.trans h
  · obtain ⟨error, ran, code⟩ := create_of_not_valid valid
    obtain rfl := Except.error.inj (Except.ok.inj (ran.symm.trans h))
    exact absurd rfl code

theorem create_reports_declared_cycle_of_two :
    IsDeclaredCycle [⟨[1]⟩, ⟨[2]⟩] [⟨⟨[1]⟩, ⟨[2]⟩⟩] [⟨⟨[1]⟩, ⟨[2]⟩⟩] [⟨[1]⟩, ⟨[2]⟩, ⟨[1]⟩] :=
  create_reports_declared_cycle [⟨[1]⟩, ⟨[2]⟩] [⟨⟨[1]⟩, ⟨[2]⟩⟩] [⟨⟨[1]⟩, ⟨[2]⟩⟩]
    [⟨[1]⟩, ⟨[2]⟩, ⟨[1]⟩] (by decide)

end FastModManager.Domain.PackageDependencyGraph
