import FastModManager.Domain.ConflictReports

namespace FastModManager.Domain.ConflictResolutionReport

open Foundation

/-- The package moves up: the others keep their relative order, and none overtakes it. -/
structure Promotes (package : PackageId) (left right : List PackageId) : Prop where
  others : ∀ first second, first ≠ package → second ≠ package →
    (left.idxOf first < left.idxOf second ↔ right.idxOf first < right.idxOf second)
  ahead : ∀ other, left.idxOf other < left.idxOf package →
    right.idxOf other < right.idxOf package

theorem promotes_of_move {package : PackageId} {before between after : List PackageId}
    (nodup : (before ++ package :: (between ++ after)).Nodup) :
    Promotes package (before ++ package :: (between ++ after))
      (before ++ between ++ package :: after) := by
  have fresh : package ∉ before ++ (between ++ after) := (List.nodup_middle.mp nodup).notMem
  simp only [List.mem_append, not_or] at fresh
  obtain ⟨notBefore, notBetween, _⟩ := fresh
  constructor
  · intro first second firstStays secondStays
    have stays : ∀ packages : List PackageId,
        (packages.filter (· ≠ package)).idxOf first < (packages.filter (· ≠ package)).idxOf second ↔
          packages.idxOf first < packages.idxOf second :=
      fun _ => idxOf_filter_lt_iff (decide_eq_true firstStays) (decide_eq_true secondStays)
    have rest : (before ++ package :: (between ++ after)).filter (· ≠ package) =
        (before ++ between ++ package :: after).filter (· ≠ package) := by
      simp
    rw [← stays, rest, stays]
  · intro other less
    rw [List.idxOf_append_of_notMem notBefore, List.idxOf_cons_self, Nat.add_zero] at less
    have inBefore : other ∈ before := by
      by_contra absent
      rw [List.idxOf_append_of_notMem absent] at less
      omega
    rw [List.append_assoc, List.idxOf_append_of_mem inBefore,
      List.idxOf_append_of_notMem notBefore]
    have := List.idxOf_lt_length_iff.mpr inBefore
    omega

section Promoted

variable {package : PackageId} {left right : List PackageId} {claims : List PackagePathClaim}

theorem Promotes.highestRanked_self (promotes : Promotes package left right)
    (known : ∀ claim ∈ claims, claim.packageId ∈ left)
    (highest : HighestRanked left claims package) : HighestRanked right claims package where
  claimed := highest.claimed
  last claim member := by
    by_cases own : claim.packageId = package
    · rw [own]
    · have differs : left.idxOf claim.packageId ≠ left.idxOf package :=
        fun same => own ((List.idxOf_inj (known claim member)).mp same)
      exact (promotes.ahead _ (lt_of_le_of_ne (highest.last claim member) differs)).le

theorem Promotes.highestRanked_other (promotes : Promotes package left right) {top : PackageId}
    (differs : top ≠ package) (highest : HighestRanked right claims top) :
    HighestRanked left claims top where
  claimed := highest.claimed
  last claim member := by
    have bound := highest.last claim member
    by_contra above
    rw [not_le] at above
    by_cases own : claim.packageId = package
    · rw [own] at above bound
      exact absurd (promotes.ahead top above) (not_lt.mpr bound)
    · exact absurd ((promotes.others _ _ differs own).mp above) (not_lt.mpr bound)

theorem Promotes.wins_self (promotes : Promotes package left right)
    (known : ∀ claim ∈ claims, claim.packageId ∈ left) {winner : PackagePathClaim}
    (own : winner.packageId = package) (wins : Wins left claims winner) :
    Wins right claims winner := by
  subst own
  exact ⟨(promotes.highestRanked_self known wins.highestRanked).last, wins.sole⟩

inductive SettledBy (package : PackageId) (priorityOrder : List PackageId)
    (claims : List PackagePathClaim) :
    ExactPathDecisionKind → Option PackagePathClaim → Prop where
  | winner {claim : PackagePathClaim} : claim ∈ claims → claim.packageId = package →
      SettledBy package priorityOrder claims .priorityWinner (some claim)
  | ambiguous : (∀ claim ∈ claims, claim.kind ≠ .directory) →
      HighestRanked priorityOrder claims package → 2 ≤ (claimsOf package claims).length →
      SettledBy package priorityOrder claims .unresolved none

theorem SettledBy.claimed {priorityOrder : List PackageId} {kind : ExactPathDecisionKind}
    {selectedClaim : Option PackagePathClaim}
    (settled : SettledBy package priorityOrder claims kind selectedClaim) :
    ∃ claim ∈ claims, claim.packageId = package := by
  cases settled with
  | winner member own => exact ⟨_, member, own⟩
  | ambiguous _ highest _ => exact highest.claimed

theorem Promotes.verdict (promotes : Promotes package left right)
    (known : ∀ claim ∈ claims, claim.packageId ∈ left) {kind : ExactPathDecisionKind}
    {selectedClaim : Option PackagePathClaim} (verdict : Verdict right claims kind selectedClaim) :
    Verdict left claims kind selectedClaim ∨
      SettledBy package right claims kind selectedClaim := by
  cases verdict with
  | singleClaim single => exact .inl (.singleClaim single)
  | mergedDirectories several directories => exact .inl (.mergedDirectories several directories)
  | mixed several directory other => exact .inl (.mixed several directory other)
  | @priorityWinner winner several files wins =>
    by_cases own : winner.packageId = package
    · exact .inr (.winner wins.mem own)
    · have highest := promotes.highestRanked_other own wins.highestRanked
      exact .inl (.priorityWinner several files ⟨highest.last, wins.sole⟩)
  | ambiguous several nonempty files none =>
    obtain ⟨top, highest⟩ := exists_highestRanked right nonempty
    rcases highest.wins_or_several with ⟨winner, _, wins⟩ | repeated
    · exact absurd wins (none winner)
    · by_cases own : top = package
      · subst own
        exact .inr (.ambiguous (fun claim member =>
          NamespaceCompilationResult.isDirectory_eq_false.mp (files claim member)) highest repeated)
      · have highest' := promotes.highestRanked_other own highest
        exact .inl (.ambiguous several nonempty files (highest'.not_wins known repeated))

theorem Decides.eq_of_kind {node : FileOwnershipNode} {decision decision' : ExactPathDecision}
    (decides : Decides left node decision) (decides' : Decides right node decision')
    (kind : decision.kind = decision'.kind)
    (selected : decision.selectedClaim = decision'.selectedClaim) : decision = decision' := by
  have path := decides.path.trans decides'.path.symm
  have claims := decides.claims.trans decides'.claims.symm
  cases decision
  cases decision'
  simp_all

end Promoted

/-- Raising a package keeps every path it wins; a decision that changes goes to the package, or
becomes ambiguous through it. -/
theorem priority_is_monotone (packageGraph : PackageDependencyGraph)
    (claims : List PackagePathClaim) (graph : FileOwnershipGraph)
    (before between after : List PackageId) (package : PackageId)
    (report : ConflictResolutionReport)
    (h : FileOwnershipGraph.create packageGraph claims = .ok graph)
    (reported : create graph (before ++ package :: (between ++ after)) = .ok (.ok report)) :
    ∃ raised, create graph (before ++ between ++ package :: after) = .ok (.ok raised) ∧
      (∀ decision ∈ report.decisions, ∀ claim, decision.kind = .priorityWinner →
        decision.selectedClaim = some claim → claim.packageId = package →
        ∃ decision' ∈ raised.decisions, decision'.path = decision.path ∧
          decision'.kind = .priorityWinner ∧ decision'.selectedClaim = some claim) ∧
      ∀ decision ∈ report.decisions, ∀ decision' ∈ raised.decisions,
        decision'.path = decision.path → decision' ≠ decision →
        (∃ claim ∈ decision'.claims, claim.packageId = package) ∧
          SettledBy package (before ++ between ++ package :: after) decision'.claims decision'.kind
            decision'.selectedClaim := by
  have owned := FileOwnershipGraph.created_of_create h
  obtain ⟨accepted, created⟩ := created_of_create owned reported
  obtain ⟨_, nodup, same⟩ := ConflictResolutionPolicy.create_eq_ok_iff.mp accepted
  have promotes := promotes_of_move nodup
  have moved : (before ++ between ++ package :: after).Perm
      (before ++ package :: (between ++ after)) := by
    rw [List.append_assoc]
    exact List.perm_middle.append_left before
  have accepted' : ConflictResolutionPolicy.create graph (before ++ between ++ package :: after) =
      .ok ⟨before ++ between ++ package :: after⟩ :=
    ConflictResolutionPolicy.create_eq_ok_iff.mpr
      ⟨rfl, moved.nodup_iff.mpr nodup, fun other => moved.mem_iff.trans (same other)⟩
  obtain ⟨raised, ran, created'⟩ := create_of_accepted owned accepted'
  have known := claims_known owned accepted
  have known' := claims_known owned accepted'
  refine ⟨raised, ran, ?_, ?_⟩
  · intro decision member claim kind selected own
    obtain ⟨node, nodeIn, decides⟩ := exists_left_of_forall₂ created.decided member
    obtain ⟨decision', member', decides'⟩ := exists_right_of_forall₂ created'.decided nodeIn
    have verdict := decides.verdict
    rw [kind, selected] at verdict
    cases verdict with
    | priorityWinner several files wins =>
      have wins' := promotes.wins_self (known node nodeIn) own wins
      obtain ⟨kind', selected'⟩ := decides'.verdict.unique (known' node nodeIn)
        (owned.sorted.nonempty node nodeIn) (.priorityWinner several files wins')
      exact ⟨decision', member', decides'.path.trans decides.path.symm, kind', selected'⟩
  · intro decision member decision' member' path differs
    obtain ⟨node, nodeIn, decides⟩ := exists_left_of_forall₂ created.decided member
    obtain ⟨node', nodeIn', decides'⟩ := exists_left_of_forall₂ created'.decided member'
    obtain rfl : node' = node := List.inj_on_of_nodup_map owned.sorted.nodup nodeIn' nodeIn
      (decides'.path.symm.trans (path.trans decides.path))
    rw [decides'.claims]
    rcases promotes.verdict (known node' nodeIn') decides'.verdict with unchanged | settled
    · obtain ⟨kind, selected⟩ := decides.verdict.unique (known node' nodeIn')
        (owned.sorted.nonempty node' nodeIn') unchanged
      exact absurd (decides'.eq_of_kind decides kind.symm selected.symm) differs
    · exact ⟨settled.claimed, settled⟩

theorem priority_is_monotone_of_contested :
    ∃ raised, create PlanningRun.contested.ownershipGraph [⟨[2]⟩, ⟨[1]⟩] = .ok (.ok raised) ∧
      ∀ decision ∈ raised.decisions, decision.path = ⟨[97, 47, 98]⟩ →
        decision.kind = .unresolved →
        SettledBy ⟨[1]⟩ [⟨[2]⟩, ⟨[1]⟩] decision.claims decision.kind decision.selectedClaim := by
  obtain ⟨raised, ran, _, settled⟩ := priority_is_monotone PlanningRun.contested.packageGraph
    PlanningRun.contestedClaims PlanningRun.contested.ownershipGraph [] [⟨[2]⟩] [] ⟨[1]⟩
    PlanningRun.contested.report (by decide) (by decide)
  refine ⟨raised, ran, fun decision member path unresolved => ?_⟩
  refine (settled ⟨⟨[97, 47, 98]⟩, .priorityWinner, PlanningRun.contestedClaims,
    some PlanningRun.contestedWinner⟩ List.mem_cons_self decision member path ?_).2
  rintro rfl
  cases unresolved

end FastModManager.Domain.ConflictResolutionReport
