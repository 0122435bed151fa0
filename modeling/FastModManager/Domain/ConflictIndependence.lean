import FastModManager.Domain.NamespacePlanning

namespace FastModManager.Domain.ConflictResolutionReport

open Foundation
open FileOwnershipGraph (claimsAt mem_claimsAt claimsAt_perm)

def SameRelativeOrder (claims : List PackagePathClaim) (left right : List PackageId) : Prop :=
  ∀ first ∈ claims, ∀ second ∈ claims,
    left.idxOf first.packageId < left.idxOf second.packageId ↔
      right.idxOf first.packageId < right.idxOf second.packageId

instance (claims : List PackagePathClaim) (left right : List PackageId) :
    Decidable (SameRelativeOrder claims left right) :=
  inferInstanceAs (Decidable (∀ first ∈ claims, ∀ second ∈ claims, _))

section Verdicts

variable {claims : List PackagePathClaim} {left right : List PackageId}

theorem SameRelativeOrder.symm (agree : SameRelativeOrder claims left right) :
    SameRelativeOrder claims right left :=
  fun first firstIn second secondIn => (agree first firstIn second secondIn).symm

theorem SameRelativeOrder.wins {winner : PackagePathClaim}
    (agree : SameRelativeOrder claims left right) (wins : Wins left claims winner) :
    Wins right claims winner where
  last claim member := by
    have notBefore : ¬ left.idxOf winner.packageId < left.idxOf claim.packageId :=
      Nat.not_lt.mpr (wins.last claim member)
    rw [agree winner wins.mem claim member] at notBefore
    exact Nat.not_lt.mp notBefore
  sole := wins.sole

theorem SameRelativeOrder.verdict {kind : ExactPathDecisionKind}
    {selectedClaim : Option PackagePathClaim} (agree : SameRelativeOrder claims left right)
    (verdict : Verdict left claims kind selectedClaim) :
    Verdict right claims kind selectedClaim := by
  cases verdict with
  | singleClaim single => exact .singleClaim single
  | mergedDirectories several directories => exact .mergedDirectories several directories
  | mixed several directory other => exact .mixed several directory other
  | priorityWinner several files wins => exact .priorityWinner several files (agree.wins wins)
  | ambiguous several nonempty files none =>
    exact .ambiguous several nonempty files fun winner wins =>
      none winner (agree.symm.wins wins)

theorem Verdict.unique {kind kind' : ExactPathDecisionKind}
    {selectedClaim selectedClaim' : Option PackagePathClaim}
    (known : ∀ claim ∈ claims, claim.packageId ∈ left) (nonempty : claims ≠ [])
    (verdict : Verdict left claims kind selectedClaim)
    (verdict' : Verdict left claims kind' selectedClaim') :
    kind = kind' ∧ selectedClaim = selectedClaim' := by
  obtain ⟨first, firstIn⟩ := List.exists_mem_of_ne_nil claims nonempty
  cases verdict <;> cases verdict' <;> grind [Wins.unique]

end Verdicts

section Reports

def decisionsAt (report : ConflictResolutionReport) (path : GameRelativePath) :
    List ExactPathDecision :=
  report.decisions.filter fun decision => decision.path = path

variable {order priorityOrder : List PackageId} {claims : List PackagePathClaim}
  {graph : FileOwnershipGraph} {report : ConflictResolutionReport} {path : GameRelativePath}

theorem Created.decision_paths (created : Created graph priorityOrder report) :
    report.decisions.map (·.path) = graph.nodes.map (·.path) := by
  symm
  apply map_eq_of_forall₂ _ created.decided
  intro node decision decides
  exact decides.path.symm

theorem Created.decisionsAt_of_claimed (owned : FileOwnershipGraph.Created order claims graph)
    (created : Created graph priorityOrder report) (claimed : claimsAt claims path ≠ []) :
    ∃ decision, report.decisionsAt path = [decision] ∧
      Verdict priorityOrder (claimsAt claims path) decision.kind decision.selectedClaim := by
  obtain ⟨claim, member⟩ := List.exists_mem_of_ne_nil _ claimed
  obtain ⟨node, nodeIn, rfl⟩ := (owned.claimed_iff path).mpr ⟨claim, mem_claimsAt.mp member⟩
  obtain ⟨decision, decisionIn, decides⟩ := exists_right_of_forall₂ created.decided nodeIn
  refine ⟨decision, ?_, decides.verdict.perm (owned.perm node nodeIn)⟩
  rw [decisionsAt, ← decides.path]
  apply filter_eq_singleton_of_nodup_map _ decisionIn
  rw [created.decision_paths]
  exact owned.sorted.nodup

def DecideAlike (path : GameRelativePath) (left right : ConflictResolutionReport) : Prop :=
  ∃ leftDecision rightDecision, left.decisionsAt path = [leftDecision] ∧
    right.decisionsAt path = [rightDecision] ∧ leftDecision.kind = rightDecision.kind ∧
      leftDecision.selectedClaim = rightDecision.selectedClaim

end Reports

end FastModManager.Domain.ConflictResolutionReport

namespace FastModManager.Domain.PlanningRun

open Foundation ConflictResolutionReport
open FileOwnershipGraph (claimsAt mem_claimsAt claimsAt_perm)

variable {left right : PlanningRun} {path : GameRelativePath}

theorem decideAlike (claimed : claimsAt left.claims path ≠ [])
    (same : (claimsAt left.claims path).Perm (claimsAt right.claims path))
    (agree : SameRelativeOrder (claimsAt left.claims path) left.priorityOrder right.priorityOrder) :
    DecideAlike path left.report right.report := by
  have claimed' : claimsAt right.claims path ≠ [] := fun empty =>
    claimed (List.perm_nil.mp (empty ▸ same))
  obtain ⟨decision, decided, verdict⟩ := left.reported.decisionsAt_of_claimed left.owned claimed
  obtain ⟨decision', decided', verdict'⟩ :=
    right.reported.decisionsAt_of_claimed right.owned claimed'
  have known : ∀ claim ∈ claimsAt right.claims path, claim.packageId ∈ right.priorityOrder :=
    fun claim member => right.known claim (mem_claimsAt.mp member).1
  obtain ⟨kind, selectedClaim⟩ :=
    ((agree.verdict verdict).perm same).unique known claimed' verdict'
  exact ⟨decision, decision', decided, decided', kind, selectedClaim⟩

/-- The right run is the left one without the package: without its claims and its place in the
priority order. Dependencies, constraints and the order of the claims may differ. -/
structure Disables (package : PackageId) (left right : PlanningRun) : Prop where
  claims : right.claims.Perm (left.claims.filter fun claim => claim.packageId ≠ package)
  priorityOrder : right.priorityOrder = left.priorityOrder.filter fun other => other ≠ package

variable {package : PackageId}

theorem Disables.claimsAt_perm (disables : Disables package left right)
    (unclaimed : ∀ claim ∈ claimsAt left.claims path, claim.packageId ≠ package) :
    (claimsAt left.claims path).Perm (claimsAt right.claims path) := by
  have kept : claimsAt (left.claims.filter fun claim => claim.packageId ≠ package) path =
      claimsAt left.claims path := by
    rw [claimsAt, List.filter_comm]
    apply List.filter_eq_self.mpr
    intro claim member
    simpa using unclaimed claim member
  have perm := FileOwnershipGraph.claimsAt_perm disables.claims path
  rw [kept] at perm
  exact perm.symm

theorem Disables.sameRelativeOrder (disables : Disables package left right)
    (unclaimed : ∀ claim ∈ claimsAt left.claims path, claim.packageId ≠ package) :
    SameRelativeOrder (claimsAt left.claims path) left.priorityOrder right.priorityOrder := by
  intro first firstIn second secondIn
  rw [disables.priorityOrder]
  symm
  apply idxOf_filter_lt_iff
  · simpa using unclaimed first firstIn
  · simpa using unclaimed second secondIn

end FastModManager.Domain.PlanningRun

namespace FastModManager.Domain

open ConflictResolutionReport PlanningRun
open FileOwnershipGraph (claimsAt)

theorem decisions_depend_on_claimants (left right : PlanningRun) :
    (∀ path, claimsAt left.claims path ≠ [] →
        (claimsAt left.claims path).Perm (claimsAt right.claims path) →
        SameRelativeOrder (claimsAt left.claims path) left.priorityOrder right.priorityOrder →
          DecideAlike path left.report right.report) ∧
      ∀ package, Disables package left right → ∀ path, claimsAt left.claims path ≠ [] →
        (∀ claim ∈ claimsAt left.claims path, claim.packageId ≠ package) →
          DecideAlike path left.report right.report :=
  ⟨fun _ claimed same agree => decideAlike claimed same agree,
    fun _ disables _ claimed unclaimed => decideAlike claimed (disables.claimsAt_perm unclaimed)
      (disables.sameRelativeOrder unclaimed)⟩

section Example

def bystanderClaim : PackagePathClaim := ⟨⟨[3]⟩, ⟨[99]⟩, ⟨[99]⟩, .regularFile⟩

def withBystander : PlanningRun where
  enabledPackages := [⟨[3]⟩, ⟨[1]⟩, ⟨[2]⟩]
  dependencies := []
  orderingConstraints := []
  claims := bystanderClaim :: contestedClaims
  priorityOrder := [⟨[1]⟩, ⟨[3]⟩, ⟨[2]⟩]
  packageGraph := ⟨[⟨[3]⟩, ⟨[1]⟩, ⟨[2]⟩], [], [], [⟨[3]⟩, ⟨[1]⟩, ⟨[2]⟩]⟩
  ownershipGraph :=
    { packageOrder := [⟨[3]⟩, ⟨[1]⟩, ⟨[2]⟩]
      claims := bystanderClaim :: contestedClaims
      nodes := [⟨⟨[97, 47, 98]⟩, contestedClaims⟩, ⟨⟨[99]⟩, [bystanderClaim]⟩]
      exactCollisionPaths := [⟨[97, 47, 98]⟩]
      obstructions := [] }
  report :=
    { policy := ⟨[⟨[1]⟩, ⟨[3]⟩, ⟨[2]⟩]⟩
      decisions :=
        [⟨⟨[97, 47, 98]⟩, .priorityWinner, contestedClaims, some contestedWinner⟩,
          ⟨⟨[99]⟩, .singleClaim, [bystanderClaim], some bystanderClaim⟩]
      diagnostics :=
        [⟨.exactPathWinnerSelected, .warning, ⟨[97, 47, 98]⟩, none, contestedClaims,
          some contestedWinner, .reviewPackagePriority⟩]
      hasBlockingConflicts := false }
  packageGraph_created := by decide
  ownershipGraph_created := by decide
  report_created := by decide

theorem decisions_depend_on_claimants_of_bystander :
    DecideAlike ⟨[97, 47, 98]⟩ contested.report withBystander.report ∧
      DecideAlike ⟨[97, 47, 98]⟩ withBystander.report contested.report :=
  ⟨(decisions_depend_on_claimants contested withBystander).1 ⟨[97, 47, 98]⟩ (by decide) (by decide)
      (by decide),
    (decisions_depend_on_claimants withBystander contested).2 ⟨[3]⟩
      ⟨.of_eq (by decide), by decide⟩ ⟨[97, 47, 98]⟩ (by decide) (by decide)⟩

end Example

end FastModManager.Domain
