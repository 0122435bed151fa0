import FastModManager.Domain.LoadOrderStability
import FastModManager.Domain.NamespaceLayers
import FastModManager.Foundation.Renaming

namespace FastModManager.Domain

open Foundation NamespacePlan
open FileOwnershipGraph (claimsAt mem_claimsAt)
open ConflictResolutionReport (Wins)

section Rename

variable (ρ : PackageId → PackageId)

def PackageDependency.rename (dependency : PackageDependency) : PackageDependency :=
  ⟨ρ dependency.dependentPackage, ρ dependency.requiredPackage⟩

def PackageOrderConstraint.rename (constraint : PackageOrderConstraint) : PackageOrderConstraint :=
  ⟨ρ constraint.beforePackage, ρ constraint.afterPackage⟩

def PackagePathClaim.rename (claim : PackagePathClaim) : PackagePathClaim :=
  { claim with packageId := ρ claim.packageId }

def NamespaceSourceReference.rename (reference : NamespaceSourceReference) :
    NamespaceSourceReference :=
  { reference with packageId := ρ reference.packageId }

def CompiledNamespaceEntry.rename (entry : CompiledNamespaceEntry) : CompiledNamespaceEntry :=
  { entry with
    selectedClaim := entry.selectedClaim.map (·.rename ρ)
    sourceReference := entry.sourceReference.map (·.rename ρ) }

def CompiledNamespace.rename (compiled : CompiledNamespace) : CompiledNamespace :=
  ⟨compiled.entries.map (·.rename ρ)⟩

end Rename

namespace PackageDependencyGraph

variable {ρ : PackageId → PackageId} {enabledPackages order : List PackageId}
  {dependencies : List PackageDependency} {orderingConstraints : List PackageOrderConstraint}
  {source target : PackageId}

theorem declaredEdge_rename_iff :
    DeclaredEdge (dependencies.map (·.rename ρ)) (orderingConstraints.map (·.rename ρ))
        source target ↔
      ∃ source' target', DeclaredEdge dependencies orderingConstraints source' target' ∧
        ρ source' = source ∧ ρ target' = target := by
  constructor
  · rintro (⟨_, renamed, rfl, rfl⟩ | ⟨_, renamed, rfl, rfl⟩)
    · obtain ⟨dependency, member, rfl⟩ := List.mem_map.mp renamed
      exact ⟨_, _, .inl ⟨dependency, member, rfl, rfl⟩, rfl, rfl⟩
    · obtain ⟨constraint, member, rfl⟩ := List.mem_map.mp renamed
      exact ⟨_, _, .inr ⟨constraint, member, rfl, rfl⟩, rfl, rfl⟩
  · rintro ⟨_, _, ⟨dependency, member, rfl, rfl⟩ | ⟨constraint, member, rfl, rfl⟩, rfl, rfl⟩
    · exact .inl ⟨_, List.mem_map_of_mem member, rfl, rfl⟩
    · exact .inr ⟨_, List.mem_map_of_mem member, rfl, rfl⟩

theorem ValidDeclarations.rename (apart : KeepsApart ρ enabledPackages)
    (valid : ValidDeclarations enabledPackages dependencies orderingConstraints) :
    ValidDeclarations (enabledPackages.map ρ) (dependencies.map (·.rename ρ))
      (orderingConstraints.map (·.rename ρ)) := by
  apply ValidDeclarations.of_related (apart.nodup_map valid.nodup)
  intro source target edge
  obtain ⟨source, target, declared, rfl, rfl⟩ := declaredEdge_rename_iff.mp edge
  have related := valid.related declared
  exact ⟨List.mem_map_of_mem related.source_mem, List.mem_map_of_mem related.target_mem,
    mt (apart source related.source_mem target related.target_mem) related.ne⟩

theorem idxOf_rename (apart : KeepsApart ρ enabledPackages) (subset : order ⊆ enabledPackages)
    {package : PackageId} (member : package ∈ enabledPackages) :
    (order.map ρ).idxOf (ρ package) = order.idxOf package :=
  idxOf_map (apart.mono (List.cons_subset.mpr ⟨member, subset⟩))

theorem isLoadOrder_rename_iff (apart : KeepsApart ρ enabledPackages)
    (valid : ValidDeclarations enabledPackages dependencies orderingConstraints)
    (perm : order.Perm enabledPackages) :
    IsLoadOrder (enabledPackages.map ρ) (dependencies.map (·.rename ρ))
        (orderingConstraints.map (·.rename ρ)) (order.map ρ) ↔
      IsLoadOrder enabledPackages dependencies orderingConstraints order := by
  have before_iff {source target : PackageId}
      (edge : DeclaredEdge dependencies orderingConstraints source target) :
      (order.map ρ).idxOf (ρ source) < (order.map ρ).idxOf (ρ target) ↔
        order.idxOf source < order.idxOf target := by
    have related := valid.related edge
    rw [idxOf_rename apart perm.subset related.source_mem,
      idxOf_rename apart perm.subset related.target_mem]
  constructor
  · intro load
    exact .of_before perm fun source target edge => (before_iff edge).mp
      (load.before (declaredEdge_rename_iff.mpr ⟨source, target, edge, rfl, rfl⟩))
  · intro load
    refine .of_before (perm.map ρ) fun source target edge => ?_
    obtain ⟨source, target, declared, rfl, rfl⟩ := declaredEdge_rename_iff.mp edge
    exact (before_iff declared).mpr (load.before declared)

theorem IsLeastLoadOrder.rename (apart : KeepsApart ρ enabledPackages)
    (valid : ValidDeclarations enabledPackages dependencies orderingConstraints)
    (least : IsLeastLoadOrder enabledPackages dependencies orderingConstraints order) :
    IsLeastLoadOrder (enabledPackages.map ρ) (dependencies.map (·.rename ρ))
      (orderingConstraints.map (·.rename ρ)) (order.map ρ) := by
  have positions {packages : List PackageId} (perm : packages.Perm enabledPackages) :
      (packages.map ρ).map (enabledPackages.map ρ).idxOf =
        packages.map enabledPackages.idxOf := by
    rw [List.map_map]
    exact List.map_congr_left fun package member =>
      idxOf_rename apart (List.Subset.refl _) (perm.subset member)
  refine ⟨(isLoadOrder_rename_iff apart valid least.1.perm).mpr least.1, fun other load => ?_⟩
  obtain ⟨original, perm, rfl⟩ := exists_of_perm_map load.perm
  rw [positions least.1.perm, positions perm]
  exact least.2 original ((isLoadOrder_rename_iff apart valid perm).mp load)

end PackageDependencyGraph

section Plan

variable {ρ : PackageId → PackageId} {priorityOrder : List PackageId}
  {claims : List PackagePathClaim} {path : GameRelativePath}

theorem claimsAt_rename :
    claimsAt (claims.map (·.rename ρ)) path = (claimsAt claims path).map (·.rename ρ) := by
  rw [claimsAt, List.filter_map]
  rfl

theorem known_at (known : ∀ claim ∈ claims, claim.packageId ∈ priorityOrder)
    (path : GameRelativePath) :
    ∀ claim ∈ claimsAt claims path, claim.packageId ∈ priorityOrder := fun claim member =>
  known claim (mem_claimsAt.mp member).1

variable (apart : KeepsApart ρ priorityOrder)
  (known : ∀ claim ∈ claims, claim.packageId ∈ priorityOrder)

include apart known

theorem wins_rename_iff {winner : PackagePathClaim} (member : winner ∈ claims) :
    Wins (priorityOrder.map ρ) (claims.map (·.rename ρ)) (winner.rename ρ) ↔
      Wins priorityOrder claims winner := by
  have position {claim : PackagePathClaim} (claimIn : claim ∈ claims) :
      (priorityOrder.map ρ).idxOf (claim.rename ρ).packageId =
        priorityOrder.idxOf claim.packageId :=
    idxOf_map (apart.mono (List.cons_subset.mpr ⟨known claim claimIn, List.Subset.refl _⟩))
  have rivals : (claims.map (·.rename ρ)).filter (fun claim =>
        claim.packageId = (winner.rename ρ).packageId) =
      (claims.filter fun claim => claim.packageId = winner.packageId).map (·.rename ρ) := by
    rw [List.filter_map]
    refine congrArg _ (List.filter_congr fun claim claimIn => decide_eq_decide.mpr ?_)
    exact ⟨apart _ (known claim claimIn) _ (known winner member), congrArg ρ⟩
  constructor
  · rintro ⟨last, sole⟩
    refine ⟨fun claim claimIn => ?_, ?_⟩
    · have renamedLast := last _ (List.mem_map_of_mem claimIn)
      rwa [position claimIn, position member] at renamedLast
    · rw [rivals] at sole
      obtain ⟨only, single, _⟩ := List.map_eq_singleton_iff.mp sole
      have own : winner ∈ claims.filter fun claim => claim.packageId = winner.packageId :=
        List.mem_filter.mpr ⟨member, decide_eq_true rfl⟩
      rw [single] at own ⊢
      rw [List.mem_singleton.mp own]
  · rintro ⟨last, sole⟩
    refine ⟨fun claim renamedIn => ?_, ?_⟩
    · obtain ⟨claim, claimIn, rfl⟩ := List.mem_map.mp renamedIn
      rw [position claimIn, position member]
      exact last claim claimIn
    · rw [rivals, sole]
      rfl

theorem resolvable_rename_iff :
    Resolvable (priorityOrder.map ρ) (claims.map (·.rename ρ)) ↔ Resolvable priorityOrder claims := by
  have kinds (holds : PackageEntryKind → Prop) :
      (∀ claim ∈ claims.map (·.rename ρ), holds claim.kind) ↔ ∀ claim ∈ claims, holds claim.kind :=
    List.forall_mem_map
  refine or_congr (kinds (· = .directory)) (and_congr (kinds (· ≠ .directory)) ?_)
  constructor
  · rintro ⟨winner, wins⟩
    obtain ⟨winner, member, rfl⟩ := List.mem_map.mp wins.mem
    exact ⟨winner, (wins_rename_iff apart known member).mp wins⟩
  · rintro ⟨winner, wins⟩
    exact ⟨_, (wins_rename_iff apart known wins.mem).mpr wins⟩

theorem ClaimedEntry.rename {entry : CompiledNamespaceEntry}
    (claimed : ClaimedEntry priorityOrder path claims entry) :
    ClaimedEntry (priorityOrder.map ρ) path (claims.map (·.rename ρ)) (entry.rename ρ) := by
  have length : (claims.map (·.rename ρ)).length = claims.length := List.length_map _
  cases claimed with
  | directory nonempty directories =>
    rw [← length]
    exact .directory (by simpa using nonempty) (List.forall_mem_map.mpr directories)
  | file files wins =>
    have renamedFiles : ∀ claim ∈ claims.map (·.rename ρ), claim.kind ≠ .directory :=
      List.forall_mem_map.mpr files
    rw [← length]
    exact .file renamedFiles ((wins_rename_iff apart known wins.mem).mpr wins)

theorem plannable_rename_iff :
    Plannable (priorityOrder.map ρ) (claims.map (·.rename ρ)) ↔ Plannable priorityOrder claims := by
  have resolvable_iff (path : GameRelativePath) :
      Resolvable (priorityOrder.map ρ) (claimsAt (claims.map (·.rename ρ)) path) ↔
        Resolvable priorityOrder (claimsAt claims path) := by
    rw [claimsAt_rename]
    exact resolvable_rename_iff apart (known_at known path)
  constructor
  · rintro ⟨resolvable, unobstructed⟩
    refine ⟨fun path several => (resolvable_iff path).mp (resolvable path ?_), ?_⟩
    · rwa [claimsAt_rename, List.length_map]
    · intro above aboveIn below belowIn
      exact unobstructed (above.rename ρ) (List.mem_map_of_mem aboveIn) (below.rename ρ)
        (List.mem_map_of_mem belowIn)
  · rintro ⟨resolvable, unobstructed⟩
    refine ⟨fun path several => (resolvable_iff path).mpr (resolvable path ?_), ?_⟩
    · rwa [claimsAt_rename, List.length_map] at several
    · exact List.forall_mem_map.mpr fun above aboveIn =>
        List.forall_mem_map.mpr fun below belowIn => unobstructed above aboveIn below belowIn

theorem Realizes.rename {compiled : CompiledNamespace} (plannable : Plannable priorityOrder claims)
    (realizes : Realizes priorityOrder claims compiled) :
    Realizes (priorityOrder.map ρ) (claims.map (·.rename ρ)) (compiled.rename ρ) where
  increasing := List.pairwise_map.mpr realizes.increasing
  mem_iff entry := by
    constructor
    · intro member
      obtain ⟨original, originalIn, rfl⟩ := List.mem_map.mp member
      cases (realizes.mem_iff original).mp originalIn with
      | claimed claimed =>
        have renamed := ClaimedEntry.rename apart (known_at known _) claimed
        rw [← claimsAt_rename] at renamed
        exact .claimed renamed
      | synthetic claimed ancestor unclaimed =>
        refine .synthetic (List.mem_map_of_mem claimed) ancestor ?_
        rw [claimsAt_rename, unclaimed, List.map_nil]
    · intro planned
      cases planned with
      | @claimed path _ claimed =>
        rw [claimsAt_rename] at claimed
        have nonempty : claimsAt claims path ≠ [] := fun empty =>
          claimed.claims_ne_nil (by rw [empty, List.map_nil])
        obtain ⟨original, originalClaimed⟩ := plannable.exists_claimedEntry nonempty
        refine List.mem_map.mpr ⟨original, (realizes.mem_iff _).mpr (.claimed originalClaimed), ?_⟩
        refine ClaimedEntry.unique ?_
          (ClaimedEntry.rename apart (known_at known path) originalClaimed) claimed
        exact List.forall_mem_map.mpr fun claim member =>
          List.mem_map_of_mem (known_at known path claim member)
      | @synthetic claim path claimed ancestor unclaimed =>
        obtain ⟨original, originalIn, rfl⟩ := List.mem_map.mp claimed
        rw [claimsAt_rename, List.map_eq_nil_iff] at unclaimed
        exact List.mem_map.mpr
          ⟨_, (realizes.mem_iff _).mpr (.synthetic originalIn ancestor unclaimed), rfl⟩

end Plan

section Run

variable {ρ : PackageId → PackageId} (run : PlanningRun) (apart : KeepsApart ρ run.enabledPackages)

include apart

theorem PlanningRun.keepsApart_priorityOrder : KeepsApart ρ run.priorityOrder := by
  have created := PackageDependencyGraph.created_of_create run.packageGraph_created
  exact apart.mono fun package member =>
    created.least.1.perm.subset ((run.mem_priorityOrder_iff package).mp member)

theorem PlanningRun.exists_renamed :
    ∃ run' : PlanningRun, run'.enabledPackages = run.enabledPackages.map ρ ∧
      run'.dependencies = run.dependencies.map (·.rename ρ) ∧
      run'.orderingConstraints = run.orderingConstraints.map (·.rename ρ) ∧
      run'.claims = run.claims.map (·.rename ρ) ∧ run'.priorityOrder = run.priorityOrder.map ρ ∧
      run'.packageGraph.resolvedOrder = run.packageGraph.resolvedOrder.map ρ := by
  have created := PackageDependencyGraph.created_of_create run.packageGraph_created
  have packageGraph_created :=
    (created.valid.rename apart).create_of_least (created.least.rename apart created.valid)
  have enabled : ∀ claim ∈ run.claims.map (·.rename ρ),
      claim.packageId ∈ run.packageGraph.resolvedOrder.map ρ :=
    List.forall_mem_map.mpr fun claim member => List.mem_map_of_mem (run.owned.enabled claim member)
  obtain ⟨ownershipGraph, ownershipGraph_created, owned⟩ :=
    @FileOwnershipGraph.create_of_enabled ⟨run.enabledPackages.map ρ,
      run.dependencies.map (·.rename ρ), run.orderingConstraints.map (·.rename ρ),
      run.packageGraph.resolvedOrder.map ρ⟩ _ enabled
  have accepted : ConflictResolutionPolicy.create ownershipGraph (run.priorityOrder.map ρ) =
      .ok ⟨run.priorityOrder.map ρ⟩ := by
    refine ConflictResolutionPolicy.create_eq_ok_iff.mpr
      ⟨rfl, (run.keepsApart_priorityOrder apart).nodup_map run.nodup, fun package => ?_⟩
    rw [owned.packageOrder, List.mem_map, List.mem_map]
    simp only [run.mem_priorityOrder_iff]
  obtain ⟨report, report_created, _⟩ := ConflictResolutionReport.create_of_accepted owned accepted
  exact ⟨{ enabledPackages := _, dependencies := _, orderingConstraints := _, claims := _,
           priorityOrder := _, packageGraph := _, ownershipGraph, report,
           packageGraph_created, ownershipGraph_created, report_created },
    rfl, rfl, rfl, rfl, rfl, rfl⟩

end Run

theorem compile_renamed (run : PlanningRun) (ρ : PackageId → PackageId)
    (apart : KeepsApart ρ run.enabledPackages) :
    ∃ run' : PlanningRun, run'.enabledPackages = run.enabledPackages.map ρ ∧
      run'.dependencies = run.dependencies.map (·.rename ρ) ∧
      run'.orderingConstraints = run.orderingConstraints.map (·.rename ρ) ∧
      run'.claims = run.claims.map (·.rename ρ) ∧ run'.priorityOrder = run.priorityOrder.map ρ ∧
      run'.packageGraph.resolvedOrder = run.packageGraph.resolvedOrder.map ρ ∧
      CompiledNamespace.compile run'.report =
        (CompiledNamespace.compile run.report).map (·.rename ρ) := by
  obtain ⟨run', enabled, dependencies, constraints, claims, order, resolved⟩ :=
    run.exists_renamed apart
  refine ⟨run', enabled, dependencies, constraints, claims, order, resolved, ?_⟩
  have apart := run.keepsApart_priorityOrder apart
  have plannable_iff : Plannable run'.priorityOrder run'.claims ↔
      Plannable run.priorityOrder run.claims := by
    rw [order, claims]
    exact plannable_rename_iff apart run.known
  by_cases plannable : Plannable run.priorityOrder run.claims
  · obtain ⟨result, compiled, realizes⟩ := NamespaceCompilationResult.compile_of_plannable run.owned
      run.reported run.known plannable
    obtain ⟨result', compiled', realizes'⟩ := NamespaceCompilationResult.compile_of_plannable
      run'.owned run'.reported run'.known (plannable_iff.mpr plannable)
    rw [order, claims] at realizes'
    have same := realizes'.unique (.refl _) (Realizes.rename apart run.known plannable realizes)
    simp only [CompiledNamespace.compile, compiled, compiled', same]
    rfl
  · have failed :=
      NamespaceCompilationResult.compile_of_not_plannable run.owned run.reported plannable
    have failed' := NamespaceCompilationResult.compile_of_not_plannable run'.owned run'.reported
      (mt plannable_iff.mp plannable)
    simp only [CompiledNamespace.compile, failed, failed']
    rfl

def exchanged (package : PackageId) : PackageId :=
  if package = ⟨[1]⟩ then ⟨[2]⟩ else ⟨[1]⟩

theorem compile_renamed_of_contested :
    ∃ run' : PlanningRun, run'.enabledPackages = [⟨[2]⟩, ⟨[1]⟩] ∧ run'.dependencies = [] ∧
      run'.orderingConstraints = [] ∧
      run'.claims = PlanningRun.contestedClaims.map (·.rename exchanged) ∧
      run'.priorityOrder = [⟨[2]⟩, ⟨[1]⟩] ∧ run'.packageGraph.resolvedOrder = [⟨[2]⟩, ⟨[1]⟩] ∧
      CompiledNamespace.compile run'.report =
        (CompiledNamespace.compile PlanningRun.contested.report).map (·.rename exchanged) :=
  compile_renamed PlanningRun.contested exchanged (by unfold KeepsApart; decide)

end FastModManager.Domain
