import FastModManager.Domain.CompiledNamespaceLaws
import FastModManager.Domain.SourceMappingLaws
import FastModManager.Domain.PackageDependencyGraphLaws

namespace FastModManager.Domain

open Foundation NamespacePlan
open FileOwnershipGraph (claimsAt LiesUnder)

/-- The stages before compilation, each of them successful. -/
structure PlanningRun where
  enabledPackages : List PackageId
  dependencies : List PackageDependency
  orderingConstraints : List PackageOrderConstraint
  claims : List PackagePathClaim
  priorityOrder : List PackageId
  packageGraph : PackageDependencyGraph
  ownershipGraph : FileOwnershipGraph
  report : ConflictResolutionReport
  packageGraph_created : PackageDependencyGraph.create enabledPackages dependencies
    orderingConstraints = .ok (.ok packageGraph)
  ownershipGraph_created : FileOwnershipGraph.create packageGraph claims = .ok ownershipGraph
  report_created : ConflictResolutionReport.create ownershipGraph priorityOrder = .ok (.ok report)

namespace PlanningRun

variable (run : PlanningRun)

theorem owned : FileOwnershipGraph.Created run.packageGraph.resolvedOrder run.claims
    run.ownershipGraph :=
  FileOwnershipGraph.created_of_create run.ownershipGraph_created

theorem reported : ConflictResolutionReport.Created run.ownershipGraph run.priorityOrder
    run.report :=
  (ConflictResolutionReport.created_of_create run.owned run.report_created).2

theorem mem_priorityOrder_iff (package : PackageId) :
    package ∈ run.priorityOrder ↔ package ∈ run.packageGraph.resolvedOrder := by
  have accepted := (ConflictResolutionReport.created_of_create run.owned run.report_created).1
  rw [(ConflictResolutionPolicy.create_eq_ok_iff.mp accepted).2.2 package, run.owned.packageOrder]

theorem known : ∀ claim ∈ run.claims, claim.packageId ∈ run.priorityOrder := fun claim member =>
  (run.mem_priorityOrder_iff _).mpr (run.owned.enabled claim member)

theorem realizes_of_compile {result : NamespaceCompilationResult}
    (compiled : NamespaceCompilationResult.compile run.report = .ok result) :
    Plannable run.priorityOrder run.claims ∧
      Realizes run.priorityOrder run.claims result.compiledNamespace := by
  by_cases plannable : Plannable run.priorityOrder run.claims
  · obtain ⟨result', ran, realizes⟩ := NamespaceCompilationResult.compile_of_plannable run.owned
      run.reported run.known plannable
    obtain rfl := Except.ok.inj (ran.symm.trans compiled)
    exact ⟨plannable, realizes⟩
  · have ran := NamespaceCompilationResult.compile_of_not_plannable run.owned run.reported plannable
    cases ran.symm.trans compiled

section Example

def contestedPlans : List PackagePlan :=
  [⟨⟨[1]⟩, ⟨none, none⟩, [⟨⟨[98]⟩, .regularFile⟩, ⟨⟨[98]⟩, .symbolicLink⟩], []⟩,
    ⟨⟨[2]⟩, ⟨none, none⟩, [⟨⟨[98]⟩, .regularFile⟩], []⟩]

def contestedDestination (_ : PackageId) (path : PackageRelativePath) : GameRelativePath :=
  ⟨[97, 47] ++ path.nativeBytes⟩

def contestedWinner : PackagePathClaim := ⟨⟨[2]⟩, ⟨[98]⟩, ⟨[97, 47, 98]⟩, .regularFile⟩

def contestedClaims : List PackagePathClaim :=
  [⟨⟨[1]⟩, ⟨[98]⟩, ⟨[97, 47, 98]⟩, .regularFile⟩, ⟨⟨[1]⟩, ⟨[98]⟩, ⟨[97, 47, 98]⟩, .symbolicLink⟩,
    contestedWinner]

def contested : PlanningRun where
  enabledPackages := [⟨[1]⟩, ⟨[2]⟩]
  dependencies := []
  orderingConstraints := []
  claims := contestedClaims
  priorityOrder := [⟨[1]⟩, ⟨[2]⟩]
  packageGraph := ⟨[⟨[1]⟩, ⟨[2]⟩], [], [], [⟨[1]⟩, ⟨[2]⟩]⟩
  ownershipGraph :=
    { packageOrder := [⟨[1]⟩, ⟨[2]⟩]
      claims := contestedClaims
      nodes := [⟨⟨[97, 47, 98]⟩, contestedClaims⟩]
      exactCollisionPaths := [⟨[97, 47, 98]⟩]
      obstructions := [] }
  report :=
    { policy := ⟨[⟨[1]⟩, ⟨[2]⟩]⟩
      decisions := [⟨⟨[97, 47, 98]⟩, .priorityWinner, contestedClaims, some contestedWinner⟩]
      diagnostics :=
        [⟨.exactPathWinnerSelected, .warning, ⟨[97, 47, 98]⟩, none, contestedClaims,
          some contestedWinner, .reviewPackagePriority⟩]
      hasBlockingConflicts := false }
  packageGraph_created := by decide
  ownershipGraph_created := by decide
  report_created := by decide

def contestedEntries : List CompiledNamespaceEntry :=
  [⟨⟨[97]⟩, .directory, .syntheticDirectory, none, none⟩,
    ⟨⟨[97, 47, 98]⟩, .regularFile, .priorityWinner, some contestedWinner, none⟩]

def contestedResult : NamespaceCompilationResult where
  compiledNamespace := ⟨contestedEntries⟩
  conflictReport := contested.report
  explanations :=
    [⟨⟨[97]⟩, .syntheticAncestorDirectory, [], none⟩,
      ⟨⟨[97, 47, 98]⟩, .priorityWinner, contestedClaims, some contestedWinner⟩]

end Example

end PlanningRun

open PlanningRun

theorem compile_mountableTree (run : PlanningRun) (result : NamespaceCompilationResult)
    (compiled : NamespaceCompilationResult.compile run.report = .ok result) :
    MountableTree result.compiledNamespace.entries :=
  let ⟨plannable, realizes⟩ := run.realizes_of_compile compiled
  realizes.mountableTree plannable

theorem compile_mountableTree_of_contested : MountableTree contestedEntries :=
  compile_mountableTree contested contestedResult (by decide)

theorem compile_represents (run : PlanningRun) (result : NamespaceCompilationResult)
    (compiled : NamespaceCompilationResult.compile run.report = .ok result) :
    Represents run.priorityOrder run.claims result.compiledNamespace.entries :=
  let ⟨plannable, realizes⟩ := run.realizes_of_compile compiled
  realizes.represents plannable

theorem compile_represents_contested :
    Represents [⟨[1]⟩, ⟨[2]⟩] contestedClaims contestedEntries :=
  compile_represents contested contestedResult (by decide)

/-- On every accepted priority order the report is made, and it compiles exactly when the claims
are plannable; what does not compile is reported as a blocking conflict. -/
theorem compile_succeeds_iff (packageGraph : PackageDependencyGraph)
    (claims : List PackagePathClaim) (ownershipGraph : FileOwnershipGraph)
    (priorityOrder : List PackageId) (policy : ConflictResolutionPolicy)
    (created : FileOwnershipGraph.create packageGraph claims = .ok ownershipGraph)
    (accepted : ConflictResolutionPolicy.create ownershipGraph priorityOrder = .ok policy) :
    ∃ report, ConflictResolutionReport.create ownershipGraph priorityOrder = .ok (.ok report) ∧
      ((∃ result, NamespaceCompilationResult.compile report = .ok result) ↔
        Plannable priorityOrder claims) ∧
      ∀ error, NamespaceCompilationResult.compile report = .error error →
        error = ⟨.blockingConflicts⟩ := by
  have owned := FileOwnershipGraph.created_of_create created
  obtain ⟨rfl, nodup, same⟩ := ConflictResolutionPolicy.create_eq_ok_iff.mp accepted
  obtain ⟨report, ran, reported⟩ := ConflictResolutionReport.create_of_accepted owned accepted
  have known : ∀ claim ∈ claims, claim.packageId ∈ priorityOrder := by
    intro claim member
    rw [same, owned.packageOrder]
    exact owned.enabled claim member
  refine ⟨report, ran, ?_⟩
  by_cases plannable : Plannable priorityOrder claims
  · obtain ⟨result, compiled, _⟩ :=
      NamespaceCompilationResult.compile_of_plannable owned reported known plannable
    refine ⟨iff_of_true ⟨result, compiled⟩ plannable, fun error failed => ?_⟩
    cases compiled.symm.trans failed
  · have failed := NamespaceCompilationResult.compile_of_not_plannable owned reported plannable
    constructor
    · refine iff_of_false ?_ plannable
      rintro ⟨result, compiled⟩
      cases failed.symm.trans compiled
    · intro error failed'
      exact (Except.error.inj (failed.symm.trans failed')).symm

theorem compile_succeeds_iff_of_contested :
    ∃ report, ConflictResolutionReport.create contested.ownershipGraph [⟨[1]⟩, ⟨[2]⟩] =
        .ok (.ok report) ∧
      ((∃ result, NamespaceCompilationResult.compile report = .ok result) ↔
        Plannable [⟨[1]⟩, ⟨[2]⟩] contestedClaims) ∧
      ∀ error, NamespaceCompilationResult.compile report = .error error →
        error = ⟨.blockingConflicts⟩ :=
  compile_succeeds_iff contested.packageGraph contestedClaims contested.ownershipGraph
    [⟨[1]⟩, ⟨[2]⟩] ⟨[⟨[1]⟩, ⟨[2]⟩]⟩ (by decide) (by decide)

theorem compile_independent_of_order (run : PlanningRun) (enabledPackages : List PackageId)
    (dependencies : List PackageDependency) (orderingConstraints : List PackageOrderConstraint)
    (claims : List PackagePathClaim) (packageGraph : PackageDependencyGraph)
    (samePackages : run.enabledPackages.Perm enabledPackages) (sameClaims : run.claims.Perm claims)
    (created : PackageDependencyGraph.create enabledPackages dependencies orderingConstraints =
      .ok (.ok packageGraph)) :
    ∃ ownershipGraph report, FileOwnershipGraph.create packageGraph claims = .ok ownershipGraph ∧
      ConflictResolutionReport.create ownershipGraph run.priorityOrder = .ok (.ok report) ∧
      CompiledNamespace.compile report = CompiledNamespace.compile run.report := by
  have resolved : run.packageGraph.resolvedOrder.Perm packageGraph.resolvedOrder := by
    have first := PackageDependencyGraph.created_of_create run.packageGraph_created
    have second := PackageDependencyGraph.created_of_create created
    exact first.least.1.perm.trans (samePackages.trans second.least.1.perm.symm)
  have enabled : ∀ claim ∈ claims, claim.packageId ∈ packageGraph.resolvedOrder := fun claim member =>
    resolved.subset (run.owned.enabled claim (sameClaims.symm.subset member))
  obtain ⟨ownershipGraph, ran, owned⟩ := FileOwnershipGraph.create_of_enabled enabled
  have accepted : ConflictResolutionPolicy.create ownershipGraph run.priorityOrder =
      .ok ⟨run.priorityOrder⟩ := by
    have accepted := (ConflictResolutionReport.created_of_create run.owned run.report_created).1
    refine ConflictResolutionPolicy.create_eq_ok_iff.mpr
      ⟨rfl, (ConflictResolutionPolicy.create_eq_ok_iff.mp accepted).2.1, fun package => ?_⟩
    rw [run.mem_priorityOrder_iff, owned.packageOrder, resolved.mem_iff]
  obtain ⟨report, ran', reported⟩ := ConflictResolutionReport.create_of_accepted owned accepted
  refine ⟨ownershipGraph, report, ran, ran', ?_⟩
  by_cases plannable : Plannable run.priorityOrder run.claims
  · have known : ∀ claim ∈ claims, claim.packageId ∈ run.priorityOrder := fun claim member =>
      run.known claim (sameClaims.symm.subset member)
    obtain ⟨result, compiled, realizes⟩ := NamespaceCompilationResult.compile_of_plannable run.owned
      run.reported run.known plannable
    obtain ⟨result', compiled', realizes'⟩ := NamespaceCompilationResult.compile_of_plannable owned
      reported known (plannable.perm sameClaims)
    simp only [CompiledNamespace.compile, compiled, compiled', realizes.unique sameClaims realizes']
  · have failed :=
      NamespaceCompilationResult.compile_of_not_plannable run.owned run.reported plannable
    have failed' := NamespaceCompilationResult.compile_of_not_plannable owned reported
      fun plannable' => plannable (plannable'.perm sameClaims.symm)
    simp only [CompiledNamespace.compile, failed, failed']

theorem compile_independent_of_order_of_contested :
    ∃ ownershipGraph report, FileOwnershipGraph.create
        ⟨[⟨[2]⟩, ⟨[1]⟩], [], [], [⟨[2]⟩, ⟨[1]⟩]⟩ contestedClaims.reverse = .ok ownershipGraph ∧
      ConflictResolutionReport.create ownershipGraph [⟨[1]⟩, ⟨[2]⟩] = .ok (.ok report) ∧
      CompiledNamespace.compile report = CompiledNamespace.compile contested.report :=
  compile_independent_of_order contested [⟨[2]⟩, ⟨[1]⟩] [] [] contestedClaims.reverse _
    (List.Perm.swap _ _ _) (List.reverse_perm _).symm (by decide)

theorem mapSources_succeeds (run : PlanningRun) (plans : List PackagePlan)
    (destination : PackageId → PackageRelativePath → GameRelativePath)
    (snapshot : List NamespacePackagePlanRecord) (compiledNamespace : CompiledNamespace)
    (distinct : (plans.map (·.packageId)).Nodup)
    (claims : run.claims.Perm (plans.flatMap (CompiledNamespace.planClaims destination)))
    (records : snapshot.Perm (plans.map fun plan => ⟨plan.packageId, plan⟩))
    (compiled : CompiledNamespace.compile run.report = .ok compiledNamespace) :
    ∃ mapped, compiledNamespace.mapSources snapshot = .ok mapped := by
  obtain ⟨result, ran, rfl⟩ : ∃ result, NamespaceCompilationResult.compile run.report = .ok result ∧
      result.compiledNamespace = compiledNamespace := by
    rw [CompiledNamespace.compile] at compiled
    split at compiled
    · cases compiled
    · rename_i result ran
      exact ⟨result, ran, Except.ok.inj compiled⟩
  obtain ⟨_, realizes⟩ := run.realizes_of_compile ran
  obtain ⟨packages, indexed, lookup⟩ :=
    CompiledNamespace.indexPackageSources_of_plans distinct records
  obtain ⟨mappedEntries, mapped⟩ := mapM_total fun entry member =>
    CompiledNamespace.mapEntry_of_planned lookup claims ((realizes.mem_iff entry).mp member)
  exact ⟨⟨mappedEntries⟩, by simp only [CompiledNamespace.mapSources, indexed, mapped]⟩

theorem mapSources_succeeds_of_contested :
    ∃ mapped, (⟨contestedEntries⟩ : CompiledNamespace).mapSources
      (contestedPlans.map fun plan => ⟨plan.packageId, plan⟩).reverse = .ok mapped :=
  mapSources_succeeds contested contestedPlans contestedDestination _ ⟨contestedEntries⟩ (by decide)
    (.refl _) (List.reverse_perm _) (by decide)

/-- `mapSources` succeeds exactly on a snapshot that provides every selected file with its kind,
and then changes nothing but the source references of the files. -/
theorem mapSources_succeeds_iff (report : ConflictResolutionReport) (compiled : CompiledNamespace)
    (snapshot : List NamespacePackagePlanRecord)
    (ran : CompiledNamespace.compile report = .ok compiled) :
    ((∃ mapped, compiled.mapSources snapshot = .ok mapped) ↔
        CompiledNamespace.Provides snapshot compiled.entries) ∧
      ∀ mapped, compiled.mapSources snapshot = .ok mapped →
        List.Forall₂ (CompiledNamespace.MapsTo snapshot) compiled.entries mapped.entries := by
  have unmapped := CompiledNamespace.unmapped_of_compile ran
  refine ⟨⟨?_, fun provides => provides.mapSources unmapped⟩, ?_⟩
  · rintro ⟨mapped, done⟩
    exact (CompiledNamespace.mapsTo_of_mapSources unmapped done).1
  · exact fun mapped done => (CompiledNamespace.mapsTo_of_mapSources unmapped done).2

theorem mapSources_succeeds_iff_of_contested :
    ((∃ mapped, (⟨contestedEntries⟩ : CompiledNamespace).mapSources
        (contestedPlans.map fun plan => ⟨plan.packageId, plan⟩) = .ok mapped) ↔
        CompiledNamespace.Provides (contestedPlans.map fun plan => ⟨plan.packageId, plan⟩)
          contestedEntries) ∧
      ∀ mapped, (⟨contestedEntries⟩ : CompiledNamespace).mapSources
          (contestedPlans.map fun plan => ⟨plan.packageId, plan⟩) = .ok mapped →
        List.Forall₂ (CompiledNamespace.MapsTo (contestedPlans.map fun plan =>
          ⟨plan.packageId, plan⟩)) contestedEntries mapped.entries :=
  mapSources_succeeds_iff contested.report ⟨contestedEntries⟩ _ (by decide)

end FastModManager.Domain
