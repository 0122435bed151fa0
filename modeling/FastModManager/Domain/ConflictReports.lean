import FastModManager.Domain.ConflictIndependence
import FastModManager.Domain.OwnershipGrouping

namespace FastModManager.Domain.ConflictResolutionReport

open Foundation
open FileOwnershipGraph (isDirectory isExactCollision containsNonDirectory)
open NamespaceCompilationResult (isDirectory_iff isDirectory_eq_false)

section Decisions

structure HighestRanked (priorityOrder : List PackageId) (claims : List PackagePathClaim)
    (package : PackageId) : Prop where
  claimed : ∃ claim ∈ claims, claim.packageId = package
  last : ∀ claim ∈ claims, priorityOrder.idxOf claim.packageId ≤ priorityOrder.idxOf package

def claimsOf (package : PackageId) (claims : List PackagePathClaim) : List PackagePathClaim :=
  claims.filter fun claim => claim.packageId = package

structure DecidedExactly (priorityOrder : List PackageId) (node : FileOwnershipNode)
    (decision : ExactPathDecision) : Prop where
  path : decision.path = node.path
  claims : decision.claims = node.claims
  single : ∀ claim, node.claims = [claim] →
    decision.kind = .singleClaim ∧ decision.selectedClaim = some claim
  merged : 2 ≤ node.claims.length → (∀ claim ∈ node.claims, claim.kind = .directory) →
    decision.kind = .mergedDirectories ∧ decision.selectedClaim = none
  mixed : (∃ claim ∈ node.claims, claim.kind = .directory) →
    (∃ claim ∈ node.claims, claim.kind ≠ .directory) →
    decision.kind = .unresolved ∧ decision.selectedClaim = none
  winner : 2 ≤ node.claims.length → (∀ claim ∈ node.claims, claim.kind ≠ .directory) →
    ∀ package claim, HighestRanked priorityOrder node.claims package →
      claimsOf package node.claims = [claim] →
      decision.kind = .priorityWinner ∧ decision.selectedClaim = some claim
  ambiguous : 2 ≤ node.claims.length → (∀ claim ∈ node.claims, claim.kind ≠ .directory) →
    ∀ package, HighestRanked priorityOrder node.claims package →
      2 ≤ (claimsOf package node.claims).length →
      decision.kind = .unresolved ∧ decision.selectedClaim = none

variable {priorityOrder : List PackageId} {claims : List PackagePathClaim}

theorem Wins.highestRanked {winner : PackagePathClaim} (wins : Wins priorityOrder claims winner) :
    HighestRanked priorityOrder claims winner.packageId :=
  ⟨⟨winner, wins.mem, rfl⟩, wins.last⟩

theorem HighestRanked.wins {package : PackageId} {winner : PackagePathClaim}
    (highest : HighestRanked priorityOrder claims package)
    (sole : claimsOf package claims = [winner]) : Wins priorityOrder claims winner := by
  have member : winner ∈ claimsOf package claims := by simp [sole]
  obtain rfl : winner.packageId = package := by simpa using (List.mem_filter.mp member).2
  exact ⟨highest.last, sole⟩

theorem HighestRanked.unique {package package' : PackageId}
    (known : ∀ claim ∈ claims, claim.packageId ∈ priorityOrder)
    (highest : HighestRanked priorityOrder claims package)
    (highest' : HighestRanked priorityOrder claims package') : package = package' := by
  obtain ⟨claim, member, rfl⟩ := highest.claimed
  obtain ⟨claim', member', rfl⟩ := highest'.claimed
  apply (List.idxOf_inj (known claim member)).mp
  exact Nat.le_antisymm (highest'.last claim member) (highest.last claim' member')

theorem exists_highestRanked (priorityOrder : List PackageId) (nonempty : claims ≠ []) :
    ∃ package, HighestRanked priorityOrder claims package := by
  obtain ⟨claim, member, last⟩ := claims.toFinset.exists_max_image
    (fun claim => priorityOrder.idxOf claim.packageId)
    (by simpa [Finset.nonempty_iff_ne_empty] using nonempty)
  refine ⟨claim.packageId, ⟨claim, List.mem_toFinset.mp member, rfl⟩, ?_⟩
  exact fun other otherIn => last other (List.mem_toFinset.mpr otherIn)

theorem HighestRanked.wins_or_several {package : PackageId}
    (highest : HighestRanked priorityOrder claims package) :
    (∃ winner, claimsOf package claims = [winner] ∧ Wins priorityOrder claims winner) ∨
      2 ≤ (claimsOf package claims).length := by
  obtain ⟨claim, member, same⟩ := highest.claimed
  have own : claim ∈ claimsOf package claims := List.mem_filter.mpr ⟨member, by simpa using same⟩
  have positive := List.length_pos_of_mem own
  by_cases several : 2 ≤ (claimsOf package claims).length
  · exact .inr several
  · have single : (claimsOf package claims).length = 1 := by omega
    obtain ⟨winner, sole⟩ := List.length_eq_one_iff.mp single
    exact .inl ⟨winner, sole, highest.wins sole⟩

theorem HighestRanked.not_wins {package : PackageId}
    (known : ∀ claim ∈ claims, claim.packageId ∈ priorityOrder)
    (highest : HighestRanked priorityOrder claims package)
    (several : 2 ≤ (claimsOf package claims).length) (winner : PackagePathClaim) :
    ¬ Wins priorityOrder claims winner := by
  intro wins
  obtain rfl := highest.unique known wins.highestRanked
  have sole : claimsOf winner.packageId claims = [winner] := wins.sole
  simp [sole] at several

theorem Decides.decidedExactly {node : FileOwnershipNode} {decision : ExactPathDecision}
    (known : ∀ claim ∈ node.claims, claim.packageId ∈ priorityOrder) (nonempty : node.claims ≠ [])
    (decides : Decides priorityOrder node decision) :
    DecidedExactly priorityOrder node decision where
  path := decides.path
  claims := decides.claims
  single claim alone := decides.verdict.unique known nonempty (.singleClaim alone)
  merged several directories := by
    apply decides.verdict.unique known nonempty
    exact .mergedDirectories (by omega) fun claim member =>
      isDirectory_iff.mpr (directories claim member)
  mixed := by
    rintro ⟨directory, directoryIn, isDir⟩ ⟨file, fileIn, isFile⟩
    apply decides.verdict.unique known nonempty
    refine .mixed ?_ ⟨directory, directoryIn, isDirectory_iff.mpr isDir⟩
      ⟨file, fileIn, isDirectory_eq_false.mpr isFile⟩
    intro alone
    obtain ⟨claim, single⟩ := List.length_eq_one_iff.mp alone
    rw [single, List.mem_singleton] at directoryIn fileIn
    exact isFile (fileIn ▸ directoryIn ▸ isDir)
  winner several files package claim highest sole := by
    apply decides.verdict.unique known nonempty
    exact .priorityWinner (by omega)
      (fun claim member => isDirectory_eq_false.mpr (files claim member)) (highest.wins sole)
  ambiguous several files package highest repeated := by
    apply decides.verdict.unique known nonempty
    exact .ambiguous (by omega) nonempty
      (fun claim member => isDirectory_eq_false.mpr (files claim member))
      (highest.not_wins known repeated)

end Decisions

section Diagnostics

inductive CollisionDiagnostic (node : FileOwnershipNode) (decision : ExactPathDecision) :
    ConflictDiagnostic → Prop where
  | winner {claim : PackagePathClaim} : decision.kind = .priorityWinner →
      decision.selectedClaim = some claim →
      CollisionDiagnostic node decision ⟨.exactPathWinnerSelected, .warning, node.path, none,
        node.claims, some claim, .reviewPackagePriority⟩
  | mixed : decision.kind = .unresolved → (∃ claim ∈ node.claims, claim.kind = .directory) →
      CollisionDiagnostic node decision ⟨.mixedEntryKinds, .error, node.path, none, node.claims,
        none, .correctPackageMapping⟩
  | ambiguous : decision.kind = .unresolved → (∀ claim ∈ node.claims, claim.kind ≠ .directory) →
      CollisionDiagnostic node decision ⟨.ambiguousHighestPriorityClaim, .error, node.path, none,
        node.claims, none, .correctPackageMapping⟩

def ReportsCollision (graph : FileOwnershipGraph) (report : ConflictResolutionReport)
    (path : GameRelativePath) (diagnostic : ConflictDiagnostic) : Prop :=
  ∃ node ∈ graph.nodes, ∃ decision ∈ report.decisions, node.path = path ∧ decision.path = path ∧
    CollisionDiagnostic node decision diagnostic

variable {priorityOrder : List PackageId} {node : FileOwnershipNode} {decision : ExactPathDecision}

theorem isExactCollision_iff :
    isExactCollision node = true ↔
      1 < node.claims.length ∧ ∃ claim ∈ node.claims, isDirectory claim = false := by
  simp [isExactCollision, containsNonDirectory, isDirectory]

theorem Decides.diagnostics (decides : Decides priorityOrder node decision)
    (nonempty : node.claims ≠ []) :
    (isExactCollision node = false ∧ diagnosticsOf decision = []) ∨
      isExactCollision node = true ∧
        ∃ diagnostic, diagnosticsOf decision = [diagnostic] ∧
          CollisionDiagnostic node decision diagnostic := by
  obtain ⟨path, kind, claims, selectedClaim⟩ := decision
  obtain ⟨rfl, rfl, verdict⟩ := decides
  have positive := List.length_pos_iff.mpr nonempty
  simp only at verdict
  cases verdict with
  | singleClaim single =>
    left
    refine ⟨?_, rfl⟩
    rw [← Bool.not_eq_true, isExactCollision_iff, single]
    simp
  | mergedDirectories several directories =>
    left
    refine ⟨?_, rfl⟩
    rw [← Bool.not_eq_true, isExactCollision_iff]
    rintro ⟨_, claim, member, file⟩
    simp [directories claim member] at file
  | mixed several directory other =>
    right
    refine ⟨isExactCollision_iff.mpr ⟨by omega, other⟩, _, rfl, ?_⟩
    obtain ⟨claim, member, isDir⟩ := directory
    have found : node.claims.any isDirectory = true := List.any_eq_true.mpr ⟨claim, member, isDir⟩
    simp only [found, if_true]
    exact .mixed rfl ⟨claim, member, isDirectory_iff.mp isDir⟩
  | priorityWinner several files wins =>
    right
    exact ⟨isExactCollision_iff.mpr ⟨by omega, _, wins.mem, files _ wins.mem⟩, _, rfl,
      .winner rfl rfl⟩
  | ambiguous several filled files none =>
    right
    obtain ⟨claim, member⟩ := List.exists_mem_of_ne_nil _ nonempty
    refine ⟨isExactCollision_iff.mpr ⟨by omega, claim, member, files claim member⟩, _, rfl, ?_⟩
    have absent : node.claims.any isDirectory = false := by simpa [List.any_eq_false] using files
    simp only [absent, Bool.false_eq_true, if_false]
    exact .ambiguous rfl fun claim member => isDirectory_eq_false.mp (files claim member)

theorem error_mem_diagnosticsOf_iff :
    (∃ diagnostic ∈ diagnosticsOf decision, diagnostic.severity = .error) ↔
      decision.kind = .unresolved := by
  unfold diagnosticsOf
  split <;> simp [*]

theorem collisions_of_decided {graph : FileOwnershipGraph} {report : ConflictResolutionReport}
    (sorted : FileOwnershipGraph.SortedNodes graph.nodes)
    (decided : List.Forall₂ (Decides priorityOrder) graph.nodes report.decisions) :
    List.Forall₂ (ReportsCollision graph report)
      ((graph.nodes.filter isExactCollision).map (·.path))
      (report.decisions.flatMap diagnosticsOf) := by
  rw [List.forall₂_map_left_iff]
  apply forall₂_filter_flatMap decided
  intro node nodeIn decision decisionIn decides
  rcases decides.diagnostics (sorted.nonempty node nodeIn) with
    calm | ⟨contested, diagnostic, single, exact⟩
  · exact .inl calm
  · exact .inr ⟨contested, diagnostic, single, node, nodeIn, decision, decisionIn, rfl,
      decides.path, exact⟩

theorem unresolved_iff_error {decisions : List ExactPathDecision} :
    decisions.any isUnresolved = true ↔
      ∃ diagnostic ∈ decisions.flatMap diagnosticsOf, diagnostic.severity = .error := by
  simp only [List.any_eq_true, isUnresolved, decide_eq_true_eq, ← error_mem_diagnosticsOf_iff,
    List.mem_flatMap]
  constructor
  · rintro ⟨decision, member, diagnostic, reported, error⟩
    exact ⟨diagnostic, ⟨decision, member, reported⟩, error⟩
  · rintro ⟨diagnostic, ⟨decision, member, reported⟩, error⟩
    exact ⟨decision, member, diagnostic, reported, error⟩

theorem obstructed_iff_error {nodes : List FileOwnershipNode} {obstructions : List PathObstruction}
    {reported : List ConflictDiagnostic}
    (reports : List.Forall₂ (ReportsObstruction nodes) obstructions reported) :
    obstructions ≠ [] ↔ ∃ diagnostic ∈ reported, diagnostic.severity = .error := by
  constructor
  · intro nonempty
    obtain ⟨obstruction, member⟩ := List.exists_mem_of_ne_nil _ nonempty
    obtain ⟨diagnostic, found, _, _, _, _, _, _, rfl⟩ := exists_right_of_forall₂ reports member
    exact ⟨_, found, rfl⟩
  · rintro ⟨diagnostic, member, _⟩ rfl
    cases reports
    exact absurd member List.not_mem_nil

end Diagnostics

theorem create_decides_each_node (packageGraph : PackageDependencyGraph)
    (claims : List PackagePathClaim) (graph : FileOwnershipGraph) (priorityOrder : List PackageId)
    (policy : ConflictResolutionPolicy)
    (h : FileOwnershipGraph.create packageGraph claims = .ok graph)
    (accepted : ConflictResolutionPolicy.create graph priorityOrder = .ok policy) :
    ∃ report, create graph priorityOrder = .ok (.ok report) ∧
      List.Forall₂ (DecidedExactly priorityOrder) graph.nodes report.decisions := by
  have owned := FileOwnershipGraph.created_of_create h
  obtain ⟨report, ran, created⟩ := create_of_accepted owned (accepted_eq accepted)
  refine ⟨report, ran, ?_⟩
  have exactly := List.forall₂_iff_zip.mp created.decided
  refine List.forall₂_iff_zip.mpr ⟨exactly.1, fun {node decision} paired => ?_⟩
  have member := (List.of_mem_zip paired).1
  exact (exactly.2 paired).decidedExactly (claims_known owned accepted node member)
    (owned.sorted.nonempty node member)

theorem create_decides_each_node_of_contested :
    ∃ report, create PlanningRun.contested.ownershipGraph [⟨[1]⟩, ⟨[2]⟩] = .ok (.ok report) ∧
      List.Forall₂ (DecidedExactly [⟨[1]⟩, ⟨[2]⟩]) PlanningRun.contested.ownershipGraph.nodes
        report.decisions :=
  create_decides_each_node PlanningRun.contested.packageGraph PlanningRun.contestedClaims
    PlanningRun.contested.ownershipGraph [⟨[1]⟩, ⟨[2]⟩] ⟨[⟨[1]⟩, ⟨[2]⟩]⟩ (by decide) (by decide)

theorem create_diagnoses_each_conflict (packageGraph : PackageDependencyGraph)
    (claims : List PackagePathClaim) (graph : FileOwnershipGraph) (priorityOrder : List PackageId)
    (policy : ConflictResolutionPolicy)
    (h : FileOwnershipGraph.create packageGraph claims = .ok graph)
    (accepted : ConflictResolutionPolicy.create graph priorityOrder = .ok policy) :
    ∃ report, create graph priorityOrder = .ok (.ok report) ∧
      (∃ collisions obstructed, report.diagnostics = collisions ++ obstructed ∧
        List.Forall₂ (ReportsCollision graph report) graph.exactCollisionPaths collisions ∧
        List.Forall₂ (ReportsObstruction graph.nodes) graph.obstructions obstructed) ∧
      (report.hasBlockingConflicts = true ↔
        ∃ diagnostic ∈ report.diagnostics, diagnostic.severity = .error) ∧
      (report.hasBlockingConflicts = true ↔
        (∃ decision ∈ report.decisions, decision.kind = .unresolved) ∨
          graph.obstructions ≠ []) := by
  have owned := FileOwnershipGraph.created_of_create h
  obtain ⟨decisions, reported, ran, decided, reports⟩ :=
    create_eq_of_accepted owned (accepted_eq accepted)
  refine ⟨_, ran, ⟨_, reported, rfl, ?_, reports⟩, ?_, ?_⟩
  · rw [FileOwnershipGraph.exactCollisionPaths_of_create h]
    exact collisions_of_decided owned.sorted decided
  · rw [Bool.or_eq_true, unresolved_iff_error, Bool.not_eq_true', List.isEmpty_eq_false_iff,
      obstructed_iff_error reports]
    simp only [List.mem_append, or_and_right, exists_or]
  · rw [Bool.or_eq_true, Bool.not_eq_true', List.isEmpty_eq_false_iff, List.any_eq_true]
    simp [isUnresolved]

theorem create_diagnoses_each_conflict_of_contested :
    ∃ report, create PlanningRun.contested.ownershipGraph [⟨[1]⟩, ⟨[2]⟩] = .ok (.ok report) ∧
      (∃ collisions obstructed, report.diagnostics = collisions ++ obstructed ∧
        List.Forall₂ (ReportsCollision PlanningRun.contested.ownershipGraph report)
          [⟨[97, 47, 98]⟩] collisions ∧
        List.Forall₂ (ReportsObstruction PlanningRun.contested.ownershipGraph.nodes) []
          obstructed) ∧
      (report.hasBlockingConflicts = true ↔
        ∃ diagnostic ∈ report.diagnostics, diagnostic.severity = .error) ∧
      (report.hasBlockingConflicts = true ↔
        (∃ decision ∈ report.decisions, decision.kind = .unresolved) ∨
          PlanningRun.contested.ownershipGraph.obstructions ≠ []) :=
  create_diagnoses_each_conflict PlanningRun.contested.packageGraph PlanningRun.contestedClaims
    PlanningRun.contested.ownershipGraph [⟨[1]⟩, ⟨[2]⟩] ⟨[⟨[1]⟩, ⟨[2]⟩]⟩ (by decide) (by decide)

end FastModManager.Domain.ConflictResolutionReport
