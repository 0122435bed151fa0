import FastModManager.Domain.LoadOrderStability

namespace FastModManager.Domain.PackageDependencyGraph

open Foundation

section Within

def dependenciesWithin (packages : List PackageId) (dependencies : List PackageDependency) :
    List PackageDependency :=
  dependencies.filter fun dependency =>
    dependency.dependentPackage ∈ packages ∧ dependency.requiredPackage ∈ packages

def constraintsWithin (packages : List PackageId)
    (orderingConstraints : List PackageOrderConstraint) : List PackageOrderConstraint :=
  orderingConstraints.filter fun constraint =>
    constraint.beforePackage ∈ packages ∧ constraint.afterPackage ∈ packages

variable {enabledPackages packages order : List PackageId} {dependencies : List PackageDependency}
  {orderingConstraints : List PackageOrderConstraint} {source target : PackageId}

theorem declaredEdge_within :
    DeclaredEdge (dependenciesWithin packages dependencies)
        (constraintsWithin packages orderingConstraints) source target ↔
      DeclaredEdge dependencies orderingConstraints source target ∧
        source ∈ packages ∧ target ∈ packages := by
  constructor
  · rintro (⟨dependency, member, rfl, rfl⟩ | ⟨constraint, member, rfl, rfl⟩)
    · obtain ⟨member, kept⟩ := List.mem_filter.mp member
      obtain ⟨target, source⟩ := of_decide_eq_true kept
      exact ⟨.inl ⟨dependency, member, rfl, rfl⟩, source, target⟩
    · obtain ⟨member, kept⟩ := List.mem_filter.mp member
      exact ⟨.inr ⟨constraint, member, rfl, rfl⟩, of_decide_eq_true kept⟩
  · rintro ⟨⟨dependency, member, rfl, rfl⟩ | ⟨constraint, member, rfl, rfl⟩, source, target⟩
    · exact .inl ⟨dependency, List.mem_filter.mpr ⟨member, decide_eq_true ⟨target, source⟩⟩, rfl, rfl⟩
    · exact .inr ⟨constraint, List.mem_filter.mpr ⟨member, decide_eq_true ⟨source, target⟩⟩, rfl, rfl⟩

theorem ValidDeclarations.within
    (valid : ValidDeclarations enabledPackages dependencies orderingConstraints)
    (nodup : packages.Nodup) :
    ValidDeclarations packages (dependenciesWithin packages dependencies)
      (constraintsWithin packages orderingConstraints) := by
  apply ValidDeclarations.of_related nodup
  intro source target edge
  obtain ⟨declared, sourceIn, targetIn⟩ := declaredEdge_within.mp edge
  exact ⟨sourceIn, targetIn, (valid.related declared).ne⟩

theorem IsLoadOrder.within
    (load : IsLoadOrder enabledPackages dependencies orderingConstraints order)
    (part : enabledPackages.filter (· ∈ packages) = packages) :
    IsLoadOrder packages (dependenciesWithin packages dependencies)
      (constraintsWithin packages orderingConstraints) (order.filter (· ∈ packages)) := by
  have perm := load.perm.filter (· ∈ packages)
  rw [part] at perm
  apply IsLoadOrder.of_before perm
  intro source target edge
  obtain ⟨declared, sourceIn, targetIn⟩ := declaredEdge_within.mp edge
  refine (idxOf_filter_lt_iff ?_ ?_).mpr (load.before declared)
  · exact decide_eq_true sourceIn
  · exact decide_eq_true targetIn

end Within

section Parts

variable {first rest lower upper : List PackageId} {dependencies : List PackageDependency}
  {orderingConstraints : List PackageOrderConstraint}

theorem filter_mem_first (nodup : (first ++ rest).Nodup) :
    (first ++ rest).filter (· ∈ first) = first := by
  rw [List.filter_append, List.filter_eq_self.mpr (by simp), List.filter_eq_nil_iff.mpr,
    List.append_nil]
  intro package inRest inFirst
  exact (List.nodup_append'.mp nodup).2.2 (of_decide_eq_true inFirst) inRest

theorem filter_mem_rest (nodup : (first ++ rest).Nodup) :
    (first ++ rest).filter (· ∈ rest) = rest := by
  rw [List.filter_append, List.filter_eq_self.mpr (by simp : ∀ package ∈ rest, _),
    List.filter_eq_nil_iff.mpr, List.nil_append]
  intro package inFirst inRest
  exact (List.nodup_append'.mp nodup).2.2 inFirst (of_decide_eq_true inRest)

theorem idxOf_rest (nodup : (first ++ rest).Nodup) {package : PackageId} (member : package ∈ rest) :
    (first ++ rest).idxOf package = first.length + rest.idxOf package :=
  List.idxOf_append_of_notMem fun inFirst => (List.nodup_append'.mp nodup).2.2 inFirst member

theorem IsLoadOrder.append
    (valid : ValidDeclarations (first ++ rest) dependencies orderingConstraints)
    (closed : ∀ source target, DeclaredEdge dependencies orderingConstraints source target →
      target ∈ first → source ∈ first)
    (loadLower : IsLoadOrder first (dependenciesWithin first dependencies)
      (constraintsWithin first orderingConstraints) lower)
    (loadUpper : IsLoadOrder rest (dependenciesWithin rest dependencies)
      (constraintsWithin rest orderingConstraints) upper) :
    IsLoadOrder (first ++ rest) dependencies orderingConstraints (lower ++ upper) := by
  have disjoint := (List.nodup_append'.mp valid.nodup).2.2
  have notLower {package : PackageId} (member : package ∈ rest) : package ∉ lower :=
    fun inLower => disjoint (loadLower.perm.subset inLower) member
  apply IsLoadOrder.of_before (loadLower.perm.append loadUpper.perm)
  intro source target edge
  obtain ⟨sourceIn, targetIn, _⟩ := valid.related edge
  rcases List.mem_append.mp targetIn with targetIn | targetIn
  · have sourceIn := closed source target edge targetIn
    rw [List.idxOf_append_of_mem (loadLower.perm.symm.subset sourceIn),
      List.idxOf_append_of_mem (loadLower.perm.symm.subset targetIn)]
    exact loadLower.before (declaredEdge_within.mpr ⟨edge, sourceIn, targetIn⟩)
  · rw [List.idxOf_append_of_notMem (notLower targetIn)]
    rcases List.mem_append.mp sourceIn with sourceIn | sourceIn
    · have member := loadLower.perm.symm.subset sourceIn
      rw [List.idxOf_append_of_mem member]
      have := List.idxOf_lt_length_iff.mpr member
      omega
    · rw [List.idxOf_append_of_notMem (notLower sourceIn)]
      have := loadUpper.before (declaredEdge_within.mpr ⟨edge, sourceIn, targetIn⟩)
      omega

theorem idxOf_lt_length_iff (nodup : (first ++ rest).Nodup) {package : PackageId}
    (member : package ∈ first ++ rest) :
    (first ++ rest).idxOf package < first.length ↔ package ∈ first := by
  rcases List.mem_append.mp member with inFirst | inRest
  · rw [List.idxOf_append_of_mem inFirst]
    exact iff_of_true (List.idxOf_lt_length_iff.mpr inFirst) inFirst
  · have notFirst : package ∉ first := fun inFirst =>
      (List.nodup_append'.mp nodup).2.2 inFirst inRest
    rw [idxOf_rest nodup inRest]
    exact iff_of_false (by omega) notFirst

theorem map_idxOf_parts_le (nodup : (first ++ rest).Nodup) {other : List PackageId}
    (perm : other.Perm (first ++ rest)) :
    (other.filter (· ∈ first)).map (first ++ rest).idxOf ++
        (other.filter (· ∈ rest)).map (first ++ rest).idxOf ≤
      other.map (first ++ rest).idxOf := by
  let small (index : Nat) : Bool := index < first.length
  have inFirst_iff : ∀ package ∈ other,
      small ((first ++ rest).idxOf package) = decide (package ∈ first) := fun package member =>
    decide_eq_decide.mpr (idxOf_lt_length_iff nodup (perm.subset member))
  have inRest_iff : ∀ package ∈ other,
      (!small ((first ++ rest).idxOf package)) = decide (package ∈ rest) := by
    intro package member
    rw [inFirst_iff package member]
    rcases List.mem_append.mp (perm.subset member) with inFirst | inRest
    · have notRest : package ∉ rest := (List.nodup_append'.mp nodup).2.2 inFirst
      simp [inFirst, notRest]
    · have notFirst : package ∉ first := fun inFirst =>
        (List.nodup_append'.mp nodup).2.2 inFirst inRest
      simp [inRest, notFirst]
  have firstPart : (other.filter (· ∈ first)).map (first ++ rest).idxOf =
      (other.map (first ++ rest).idxOf).filter small := by
    rw [List.filter_map]
    exact congrArg _ (List.filter_congr fun package member => (inFirst_iff package member).symm)
  have restPart : (other.filter (· ∈ rest)).map (first ++ rest).idxOf =
      (other.map (first ++ rest).idxOf).filter fun index => !small index := by
    rw [List.filter_map]
    exact congrArg _ (List.filter_congr fun package member => (inRest_iff package member).symm)
  rw [firstPart, restPart]
  refine filter_append_filter_le small fun a _ b _ isSmall isLarge => ?_
  have below : a < first.length := of_decide_eq_true isSmall
  have above : ¬ b < first.length := of_decide_eq_false isLarge
  omega

theorem IsLeastLoadOrder.append
    (valid : ValidDeclarations (first ++ rest) dependencies orderingConstraints)
    (closed : ∀ source target, DeclaredEdge dependencies orderingConstraints source target →
      target ∈ first → source ∈ first)
    (leastLower : IsLeastLoadOrder first (dependenciesWithin first dependencies)
      (constraintsWithin first orderingConstraints) lower)
    (leastUpper : IsLeastLoadOrder rest (dependenciesWithin rest dependencies)
      (constraintsWithin rest orderingConstraints) upper) :
    IsLeastLoadOrder (first ++ rest) dependencies orderingConstraints (lower ++ upper) := by
  refine ⟨.append valid closed leastLower.1 leastUpper.1, fun other load => ?_⟩
  let position := (first ++ rest).idxOf
  have firstLoad := load.within (filter_mem_first valid.nodup)
  have restLoad := load.within (filter_mem_rest valid.nodup)
  have firstPositions : ∀ packages : List PackageId, packages ⊆ first →
      packages.map position = packages.map first.idxOf := by
    intro packages inside
    exact List.map_congr_left fun package member => List.idxOf_append_of_mem (inside member)
  have lowerLe : lower.map position ≤ (other.filter (· ∈ first)).map position := by
    rw [firstPositions _ leastLower.1.perm.subset, firstPositions _ firstLoad.perm.subset]
    exact leastLower.2 _ firstLoad
  have upperLe : upper.map position ≤ (other.filter (· ∈ rest)).map position := by
    have alike : (other.filter (· ∈ rest)).map position < upper.map position ↔
        (other.filter (· ∈ rest)).map rest.idxOf < upper.map rest.idxOf := by
      refine map_lt_map_iff (· ∈ rest) ?_ restLoad.perm.subset leastUpper.1.perm.subset
      intro package package' inRest inRest'
      simp only [position, idxOf_rest valid.nodup inRest, idxOf_rest valid.nodup inRest']
      omega
    exact not_lt.mp (mt alike.mp (not_lt.mpr (leastUpper.2 _ restLoad)))
  have length : (lower.map position).length = ((other.filter (· ∈ first)).map position).length := by
    rw [List.length_map, List.length_map]
    exact (leastLower.1.perm.trans firstLoad.perm.symm).length_eq
  calc (lower ++ upper).map position
      = lower.map position ++ upper.map position := List.map_append
    _ ≤ (other.filter (· ∈ first)).map position ++ (other.filter (· ∈ rest)).map position :=
        append_le_append length lowerLe upperLe
    _ ≤ other.map position := map_idxOf_parts_le valid.nodup load.perm

end Parts

theorem create_append_iff (first rest : List PackageId) (dependencies : List PackageDependency)
    (orderingConstraints : List PackageOrderConstraint) (order : List PackageId)
    (valid : ValidDeclarations (first ++ rest) dependencies orderingConstraints)
    (closed : ∀ source target, DeclaredEdge dependencies orderingConstraints source target →
      target ∈ first → source ∈ first) :
    create (first ++ rest) dependencies orderingConstraints =
        .ok (.ok ⟨first ++ rest, dependencies, orderingConstraints, order⟩) ↔
      ∃ lower upper, order = lower ++ upper ∧
        create first (dependenciesWithin first dependencies)
            (constraintsWithin first orderingConstraints) =
          .ok (.ok ⟨first, dependenciesWithin first dependencies,
            constraintsWithin first orderingConstraints, lower⟩) ∧
        create rest (dependenciesWithin rest dependencies)
            (constraintsWithin rest orderingConstraints) =
          .ok (.ok ⟨rest, dependenciesWithin rest dependencies,
            constraintsWithin rest orderingConstraints, upper⟩) := by
  obtain ⟨nodupFirst, nodupRest, _⟩ := List.nodup_append'.mp valid.nodup
  have validFirst := valid.within nodupFirst
  have validRest := valid.within nodupRest
  constructor
  · intro ran
    have created := created_of_create ran
    have acyclicWithin (packages : List PackageId) :
        Acyclic (DeclaredEdge (dependenciesWithin packages dependencies)
          (constraintsWithin packages orderingConstraints)) :=
      created.acyclic.comap id fun edge => (declaredEdge_within.mp edge).1
    obtain ⟨lower, ranFirst, leastLower⟩ := validFirst.create_of_acyclic (acyclicWithin first)
    obtain ⟨upper, ranRest, leastUpper⟩ := validRest.create_of_acyclic (acyclicWithin rest)
    have least := leastLower.append valid closed leastUpper
    exact ⟨lower, upper, created.least.unique least, ranFirst, ranRest⟩
  · rintro ⟨lower, upper, rfl, ranFirst, ranRest⟩
    have leastLower := (created_of_create ranFirst).least
    have leastUpper := (created_of_create ranRest).least
    exact valid.create_of_least (leastLower.append valid closed leastUpper)

theorem create_append_iff_of_three :
    create [⟨[2]⟩, ⟨[1]⟩, ⟨[3]⟩] [⟨⟨[2]⟩, ⟨[1]⟩⟩, ⟨⟨[3]⟩, ⟨[2]⟩⟩] [] =
        .ok (.ok ⟨[⟨[2]⟩, ⟨[1]⟩, ⟨[3]⟩], [⟨⟨[2]⟩, ⟨[1]⟩⟩, ⟨⟨[3]⟩, ⟨[2]⟩⟩], [],
          [⟨[1]⟩, ⟨[2]⟩, ⟨[3]⟩]⟩) ↔
      ∃ lower upper, [⟨[1]⟩, ⟨[2]⟩, ⟨[3]⟩] = lower ++ upper ∧
        create [⟨[2]⟩, ⟨[1]⟩] [⟨⟨[2]⟩, ⟨[1]⟩⟩] [] =
          .ok (.ok ⟨[⟨[2]⟩, ⟨[1]⟩], [⟨⟨[2]⟩, ⟨[1]⟩⟩], [], lower⟩) ∧
        create [⟨[3]⟩] [] [] = .ok (.ok ⟨[⟨[3]⟩], [], [], upper⟩) :=
  create_append_iff [⟨[2]⟩, ⟨[1]⟩] [⟨[3]⟩] [⟨⟨[2]⟩, ⟨[1]⟩⟩, ⟨⟨[3]⟩, ⟨[2]⟩⟩] [] _
    ⟨by decide, by decide, by decide⟩ (forall_declaredEdge_iff.mpr ⟨by decide, by decide⟩)

end FastModManager.Domain.PackageDependencyGraph
