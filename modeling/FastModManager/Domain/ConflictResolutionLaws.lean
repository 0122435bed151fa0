import FastModManager.Domain.ConflictResolution
import FastModManager.Domain.FileOwnershipGraphLaws

namespace FastModManager.Domain

open Foundation

namespace ConflictResolutionPolicy

theorem seePackages_of_fresh {graphPackages seenPackages : Finset PackageId}
    {items : List (PackageId × Nat)} (nodup : (items.map Prod.fst).Nodup)
    (fresh : ∀ package ∈ items.map Prod.fst, package ∉ seenPackages)
    (known : ∀ package ∈ items.map Prod.fst, package ∈ graphPackages) :
    seePackages graphPackages items seenPackages =
      .ok (seenPackages ∪ (items.map Prod.fst).toFinset) := by
  induction items generalizing seenPackages with
  | nil => simp [seePackages]
  | cons item items ih =>
    obtain ⟨package, index⟩ := item
    obtain ⟨first, nodup⟩ := List.nodup_cons.mp nodup
    have known' : package ∈ graphPackages := known package (by simp)
    rw [seePackages, if_neg (fresh package (by simp)), if_neg (not_not.mpr known'), ih nodup]
    · simp
    · intro other member
      rw [Finset.mem_insert, not_or]
      exact ⟨fun same => first (same ▸ member), fresh other (List.mem_cons_of_mem _ member)⟩
    · exact fun other member => known other (List.mem_cons_of_mem _ member)

theorem fresh_of_seePackages {graphPackages seenPackages result : Finset PackageId}
    {items : List (PackageId × Nat)}
    (h : seePackages graphPackages items seenPackages = .ok result) :
    (items.map Prod.fst).Nodup ∧ (∀ package ∈ items.map Prod.fst, package ∉ seenPackages) ∧
      ∀ package ∈ items.map Prod.fst, package ∈ graphPackages := by
  induction items generalizing seenPackages with
  | nil => simp
  | cons item items ih =>
    obtain ⟨package, index⟩ := item
    rw [seePackages] at h
    split at h
    · cases h
    · rename_i new
      split at h
      · cases h
      · rename_i known
        obtain ⟨nodup, fresh, rest⟩ := ih h
        have differs : ∀ other ∈ items.map Prod.fst, other ≠ package ∧ other ∉ seenPackages := by
          intro other member
          have := fresh other member
          rwa [Finset.mem_insert, not_or] at this
        refine ⟨List.nodup_cons.mpr ⟨fun member => (differs package member).1 rfl, nodup⟩,
          List.forall_mem_cons.mpr ⟨new, fun other member => (differs other member).2⟩,
          List.forall_mem_cons.mpr ⟨not_not.mp known, rest⟩⟩

theorem create_eq_ok_iff {graph : FileOwnershipGraph} {priorityOrder : List PackageId}
    {policy : ConflictResolutionPolicy} :
    create graph priorityOrder = .ok policy ↔ policy = ⟨priorityOrder⟩ ∧ priorityOrder.Nodup ∧
      ∀ package, package ∈ priorityOrder ↔ package ∈ graph.packageOrder := by
  have items : priorityOrder.zipIdx.map Prod.fst = priorityOrder := by simp
  by_cases accepted : priorityOrder.Nodup ∧ ∀ package ∈ priorityOrder, package ∈ graph.packageOrder
  · obtain ⟨nodup, known⟩ := accepted
    have ran : seePackages graph.packageOrder.toFinset priorityOrder.zipIdx ∅ =
        .ok priorityOrder.toFinset := by
      have seen : seePackages graph.packageOrder.toFinset priorityOrder.zipIdx ∅ =
          .ok (∅ ∪ (priorityOrder.zipIdx.map Prod.fst).toFinset) :=
        seePackages_of_fresh (by rwa [items]) (by simp) (by simpa [items] using known)
      simpa [items] using seen
    simp only [create, ran]
    split
    · rename_i missing found
      have inGraph := List.mem_of_find?_eq_some found
      have unseen := List.find?_some found
      simp only [List.mem_toFinset, decide_eq_true_eq] at unseen
      simpa using fun _ _ => ⟨missing, by simp [unseen, inGraph]⟩
    · rename_i none
      rw [List.find?_eq_none] at none
      simp only [Except.ok.injEq]
      constructor
      · rintro rfl
        exact ⟨rfl, nodup, fun package => ⟨known package, by simpa using none package⟩⟩
      · rintro ⟨rfl, _, _⟩
        rfl
  · constructor
    · intro h
      unfold create at h
      split at h
      · cases h
      · rename_i seen ran
        obtain ⟨nodup, _, known⟩ := fresh_of_seePackages ran
        rw [items] at nodup known
        exact absurd ⟨nodup, by simpa using known⟩ accepted
    · rintro ⟨_, nodup, same⟩
      exact absurd ⟨nodup, fun package => (same package).mp⟩ accepted

end ConflictResolutionPolicy

namespace ConflictResolutionReport

open FileOwnershipGraph (isDirectory)

/-- The last claiming package of the priority order makes `winner`, and no other claim. -/
structure Wins (priorityOrder : List PackageId) (claims : List PackagePathClaim)
    (winner : PackagePathClaim) : Prop where
  last : ∀ claim ∈ claims,
    priorityOrder.idxOf claim.packageId ≤ priorityOrder.idxOf winner.packageId
  sole : claims.filter (fun claim => claim.packageId = winner.packageId) = [winner]

theorem Wins.mem {priorityOrder : List PackageId} {claims : List PackagePathClaim}
    {winner : PackagePathClaim} (h : Wins priorityOrder claims winner) : winner ∈ claims := by
  have found : winner ∈ claims.filter fun claim => claim.packageId = winner.packageId := by
    simp [h.sole]
  exact (List.mem_filter.mp found).1

theorem Wins.perm {priorityOrder : List PackageId} {claims claims' : List PackagePathClaim}
    {winner : PackagePathClaim} (perm : claims.Perm claims')
    (h : Wins priorityOrder claims winner) :
    Wins priorityOrder claims' winner where
  last claim member := h.last claim (perm.symm.subset member)
  sole := by
    have filtered := perm.filter fun claim => claim.packageId = winner.packageId
    rw [h.sole] at filtered
    exact List.perm_singleton.mp filtered.symm

theorem Wins.unique {priorityOrder : List PackageId} {claims : List PackagePathClaim}
    {left right : PackagePathClaim} (hl : Wins priorityOrder claims left)
    (known : ∀ claim ∈ claims, claim.packageId ∈ priorityOrder)
    (hr : Wins priorityOrder claims right) : left = right := by
  have same : left.packageId = right.packageId := by
    apply (List.idxOf_inj (known left hl.mem)).mp
    exact Nat.le_antisymm (hr.last left hl.mem) (hl.last right hr.mem)
  have sole := hl.sole
  rw [same, hr.sole] at sole
  exact (List.singleton_inj.mp sole).symm

section Selection

variable {priorityOrder : List PackageId}

/-- The loop variables after the claims `visited`. -/
inductive Scanned (priorityOrder : List PackageId) (visited : List PackagePathClaim) :
    Selection → Prop where
  | start : visited = [] → Scanned priorityOrder visited ⟨none, 0, 0⟩
  | best {claim : PackagePathClaim} : claim ∈ visited →
      (∀ other ∈ visited,
        priorityOrder.idxOf other.packageId ≤ priorityOrder.idxOf claim.packageId) →
      Scanned priorityOrder visited
        ⟨some claim, priorityOrder.idxOf claim.packageId,
          visited.countP fun other => other.packageId = claim.packageId⟩

theorem idxOf_le_append {visited : List PackagePathClaim} {claim : PackagePathClaim} {rank : Nat}
    (bound : ∀ other ∈ visited, priorityOrder.idxOf other.packageId ≤ rank)
    (last : priorityOrder.idxOf claim.packageId ≤ rank) :
    ∀ other ∈ visited ++ [claim], priorityOrder.idxOf other.packageId ≤ rank := by
  intro other member
  rcases List.mem_append.mp member with member | member
  · exact bound other member
  · exact List.mem_singleton.mp member ▸ last

theorem Scanned.step {visited : List PackagePathClaim} {selection : Selection}
    {claim : PackagePathClaim} (known : claim.packageId ∈ priorityOrder)
    (scanned : Scanned priorityOrder visited selection) :
    ∃ next, selectClaim (Map.indexAll priorityOrder) selection claim = .ok next ∧
      Scanned priorityOrder (visited ++ [claim]) next := by
  have rank : (Map.indexAll priorityOrder).checkedAt claim.packageId =
      .ok (priorityOrder.idxOf claim.packageId) :=
    Map.checkedAt_of_lookup (by rw [Map.lookup_indexAll, if_pos known])
  simp only [selectClaim, rank, Checked.ok_bind]
  cases scanned with
  | start empty =>
    subst empty
    refine ⟨_, by simp; rfl, ?_⟩
    have first : Scanned priorityOrder [claim] ⟨some claim, _, _⟩ :=
      .best (List.mem_singleton_self claim) (by simp)
    simpa using first
  | @best best member bound =>
    rcases Nat.lt_trichotomy (priorityOrder.idxOf best.packageId)
      (priorityOrder.idxOf claim.packageId) with higher | same | lower
    · refine ⟨_, by simp [higher]; rfl, ?_⟩
      have bound' := idxOf_le_append (fun other member => (bound other member).trans higher.le)
        (le_refl (priorityOrder.idxOf claim.packageId))
      have replaced : Scanned priorityOrder (visited ++ [claim]) ⟨some claim, _, _⟩ :=
        .best (by simp) bound'
      have fresh : ∀ other ∈ visited, other.packageId ≠ claim.packageId := by
        intro other member same
        exact absurd (bound other member) (by rw [same]; omega)
      have count :
        (visited ++ [claim]).countP (fun other => other.packageId = claim.packageId) = 1 := by
        simpa [List.countP_append, List.countP_eq_zero] using fresh
      rwa [count] at replaced
    · have samePackage : claim.packageId = best.packageId :=
        (List.idxOf_inj known).mp same.symm
      refine ⟨_, by simp [samePackage]; rfl, ?_⟩
      have counted : Scanned priorityOrder (visited ++ [claim]) ⟨some best, _, _⟩ :=
        .best (by simp [member]) (idxOf_le_append bound same.ge)
      simpa [List.countP_append, samePackage] using counted
    · have differs : claim.packageId ≠ best.packageId := by
        intro same
        rw [same] at lower
        omega
      refine ⟨_, by simp [lower.not_gt, lower.ne]; rfl, ?_⟩
      have kept : Scanned priorityOrder (visited ++ [claim]) ⟨some best, _, _⟩ :=
        .best (by simp [member]) (idxOf_le_append bound lower.le)
      simpa [List.countP_append, differs] using kept

theorem selectClaims_spec {claims : List PackagePathClaim}
    (known : ∀ claim ∈ claims, claim.packageId ∈ priorityOrder) :
    ∃ selection, claims.foldlM (selectClaim (Map.indexAll priorityOrder)) ⟨none, 0, 0⟩ =
      .ok selection ∧ Scanned priorityOrder claims selection := by
  apply foldlM_total _ _ _ (Scanned priorityOrder) (.start rfl)
  exact fun visited claim member selection scanned => scanned.step (known claim member)

end Selection

section Verdict

variable {priorityOrder : List PackageId}

theorem Scanned.wins_of_count_le {claims : List PackagePathClaim} {claim : PackagePathClaim}
    {rank count : Nat} (scanned : Scanned priorityOrder claims ⟨some claim, rank, count⟩)
    (single : count ≤ 1) : Wins priorityOrder claims claim := by
  cases scanned with
  | best member bound =>
    refine ⟨bound, ?_⟩
    have found : claim ∈ claims.filter fun other => other.packageId = claim.packageId := by
      simp [member]
    rw [List.countP_eq_length_filter] at single
    obtain ⟨other, only⟩ : ∃ other,
        claims.filter (fun other => other.packageId = claim.packageId) = [other] := by
      apply List.length_eq_one_iff.mp
      have := List.length_pos_of_mem found
      omega
    rw [only, List.mem_singleton] at found
    rw [only, found]

theorem Scanned.not_wins_of_count {claims : List PackagePathClaim} {selection : Selection}
    (scanned : Scanned priorityOrder claims selection)
    (known : ∀ claim ∈ claims, claim.packageId ∈ priorityOrder)
    (several : selection.selectedPackageClaimCount > 1) (winner : PackagePathClaim) :
    ¬ Wins priorityOrder claims winner := by
  intro wins
  cases scanned with
  | start => simp at several
  | @best claim member bound =>
    have same : claim.packageId = winner.packageId := by
      apply (List.idxOf_inj (known claim member)).mp
      exact Nat.le_antisymm (wins.last claim member) (bound winner wins.mem)
    simp [List.countP_eq_length_filter, same, wins.sole] at several

inductive Verdict (priorityOrder : List PackageId) (claims : List PackagePathClaim) :
    ExactPathDecisionKind → Option PackagePathClaim → Prop where
  | singleClaim {claim : PackagePathClaim} : claims = [claim] →
      Verdict priorityOrder claims .singleClaim (some claim)
  | mergedDirectories : claims.length ≠ 1 → (∀ claim ∈ claims, isDirectory claim = true) →
      Verdict priorityOrder claims .mergedDirectories none
  | mixed : claims.length ≠ 1 → (∃ claim ∈ claims, isDirectory claim = true) →
      (∃ claim ∈ claims, isDirectory claim = false) →
      Verdict priorityOrder claims .unresolved none
  | priorityWinner {winner : PackagePathClaim} : claims.length ≠ 1 →
      (∀ claim ∈ claims, isDirectory claim = false) → Wins priorityOrder claims winner →
      Verdict priorityOrder claims .priorityWinner (some winner)
  | ambiguous : claims.length ≠ 1 → claims ≠ [] →
      (∀ claim ∈ claims, isDirectory claim = false) →
      (∀ winner, ¬ Wins priorityOrder claims winner) →
      Verdict priorityOrder claims .unresolved none

theorem Verdict.perm {claims claims' : List PackagePathClaim} {kind : ExactPathDecisionKind}
    {selectedClaim : Option PackagePathClaim} (perm : claims.Perm claims')
    (h : Verdict priorityOrder claims kind selectedClaim) :
    Verdict priorityOrder claims' kind selectedClaim := by
  have length := perm.length_eq
  have forward {P : PackagePathClaim → Prop} (all : ∀ claim ∈ claims, P claim) :
      ∀ claim ∈ claims', P claim := fun claim member => all claim (perm.symm.subset member)
  have witness {P : PackagePathClaim → Prop} (some : ∃ claim ∈ claims, P claim) :
      ∃ claim ∈ claims', P claim := by
    obtain ⟨claim, member, holds⟩ := some
    exact ⟨claim, perm.subset member, holds⟩
  cases h with
  | singleClaim single =>
    subst single
    exact .singleClaim (List.perm_singleton.mp perm.symm)
  | mergedDirectories several directories =>
    exact .mergedDirectories (length ▸ several) (forward directories)
  | mixed several directory other =>
    exact .mixed (length ▸ several) (witness directory) (witness other)
  | priorityWinner several files wins =>
    exact .priorityWinner (length ▸ several) (forward files) (wins.perm perm)
  | ambiguous several nonempty files none =>
    refine .ambiguous (length ▸ several) ?_ (forward files) fun winner wins =>
      none winner (wins.perm perm.symm)
    rintro rfl
    exact nonempty perm.eq_nil

structure Decides (priorityOrder : List PackageId) (node : FileOwnershipNode)
    (decision : ExactPathDecision) : Prop where
  path : decision.path = node.path
  claims : decision.claims = node.claims
  verdict : Verdict priorityOrder node.claims decision.kind decision.selectedClaim

def diagnosticsOf (decision : ExactPathDecision) : List ConflictDiagnostic :=
  match decision.kind with
  | .singleClaim | .mergedDirectories => []
  | .priorityWinner =>
    [⟨.exactPathWinnerSelected, .warning, decision.path, none, decision.claims,
      decision.selectedClaim, .reviewPackagePriority⟩]
  | .unresolved =>
    [⟨if decision.claims.any isDirectory then .mixedEntryKinds else .ambiguousHighestPriorityClaim,
      .error, decision.path, none, decision.claims, none, .correctPackageMapping⟩]

def isUnresolved (decision : ExactPathDecision) : Bool := decision.kind = .unresolved

def Draft.extend (draft : Draft) (decision : ExactPathDecision) : Draft where
  decisions := draft.decisions ++ [decision]
  diagnostics := draft.diagnostics ++ diagnosticsOf decision
  hasBlockingConflicts := draft.hasBlockingConflicts || isUnresolved decision

theorem resolveContest_spec {node : FileOwnershipNode} (draft : Draft)
    (known : ∀ claim ∈ node.claims, claim.packageId ∈ priorityOrder)
    (several : node.claims.length ≠ 1) (nonempty : node.claims ≠ [])
    (files : ∀ claim ∈ node.claims, isDirectory claim = false) :
    ∃ decision, resolveContest (Map.indexAll priorityOrder) draft node =
      .ok (draft.extend decision) ∧ Decides priorityOrder node decision := by
  obtain ⟨selection, ran, scanned⟩ := selectClaims_spec known
  simp only [resolveContest, ran, Checked.ok_bind]
  have noDirectory : node.claims.any isDirectory = false := by
    simpa [List.any_eq_false] using files
  by_cases count : selection.selectedPackageClaimCount > 1
  · refine ⟨⟨node.path, .unresolved, node.claims, none⟩, ?_, rfl, rfl,
      .ambiguous several nonempty files (scanned.not_wins_of_count known count)⟩
    simp [count, unresolved, Draft.extend, Draft.addDecision, Draft.addDiagnostic, Draft.block,
      diagnosticsOf, isUnresolved, noDirectory]
    rfl
  · cases scanned with
    | start empty => exact absurd empty nonempty
    | @best winner member bound =>
      have wins := (Scanned.best member bound).wins_of_count_le (Nat.le_of_not_gt count)
      refine ⟨⟨node.path, .priorityWinner, node.claims, some winner⟩, ?_, rfl, rfl,
        .priorityWinner several files wins⟩
      simp only [if_neg count]
      simp [Draft.extend, Draft.addDecision, Draft.addDiagnostic, diagnosticsOf, isUnresolved]
      rfl

theorem resolveNode_spec {node : FileOwnershipNode} (draft : Draft)
    (known : ∀ claim ∈ node.claims, claim.packageId ∈ priorityOrder) :
    ∃ decision, resolveNode (Map.indexAll priorityOrder) draft node =
      .ok (draft.extend decision) ∧ Decides priorityOrder node decision := by
  unfold resolveNode
  split
  · rename_i claim single
    refine ⟨⟨node.path, .singleClaim, node.claims, some claim⟩, ?_, rfl, rfl, .singleClaim single⟩
    simp [Draft.extend, Draft.addDecision, diagnosticsOf, isUnresolved]
    rfl
  · rename_i several
    have several : node.claims.length ≠ 1 := by
      intro length
      obtain ⟨claim, single⟩ := List.length_eq_one_iff.mp length
      exact several claim single
    by_cases directories : node.claims.all isDirectory = true
    · refine ⟨⟨node.path, .mergedDirectories, node.claims, none⟩, ?_, rfl, rfl,
        .mergedDirectories several (List.all_eq_true.mp directories)⟩
      simp only [if_pos directories]
      simp [Draft.extend, Draft.addDecision, diagnosticsOf, isUnresolved]
      rfl
    · by_cases directory : node.claims.any isDirectory = true
      · refine ⟨⟨node.path, .unresolved, node.claims, none⟩, ?_, rfl, rfl,
          .mixed several (List.any_eq_true.mp directory) (by simpa using directories)⟩
        simp only [if_neg directories, if_pos directory]
        simp [unresolved, Draft.extend, Draft.addDecision, Draft.addDiagnostic, Draft.block,
          diagnosticsOf, isUnresolved, directory]
        rfl
      · have files : ∀ claim ∈ node.claims, isDirectory claim = false := by
          simpa using directory
        have nonempty : node.claims ≠ [] := by
          intro empty
          simp [empty] at directories
        simpa only [if_neg directories, if_neg directory] using
          resolveContest_spec draft known several nonempty files

theorem resolveNodes_spec {nodes : List FileOwnershipNode}
    (known : ∀ node ∈ nodes, ∀ claim ∈ node.claims, claim.packageId ∈ priorityOrder) :
    ∃ decisions, nodes.foldlM (resolveNode (Map.indexAll priorityOrder)) Draft.empty =
        .ok ⟨decisions, decisions.flatMap diagnosticsOf, decisions.any isUnresolved⟩ ∧
      List.Forall₂ (Decides priorityOrder) nodes decisions := by
  obtain ⟨result, ran, decisions, rfl, decided⟩ := foldlM_total
    (resolveNode (Map.indexAll priorityOrder)) nodes Draft.empty
    (fun visited draft => ∃ decisions,
      draft = ⟨decisions, decisions.flatMap diagnosticsOf, decisions.any isUnresolved⟩ ∧
        List.Forall₂ (Decides priorityOrder) visited decisions)
    ⟨[], rfl, .nil⟩
    (by
      rintro visited node member _ ⟨decisions, rfl, decided⟩
      obtain ⟨decision, ran, decides⟩ := resolveNode_spec
        ⟨decisions, decisions.flatMap diagnosticsOf, decisions.any isUnresolved⟩ (known node member)
      refine ⟨_, ran, decisions ++ [decision], ?_, List.rel_append decided (.cons decides .nil)⟩
      simp [Draft.extend])
  exact ⟨decisions, ran, decided⟩

end Verdict

section Report

theorem checkedAt_indexNodes {nodes : List FileOwnershipNode}
    (distinct : (nodes.map (·.path)).Nodup) {node : FileOwnershipNode} (member : node ∈ nodes) :
    (indexNodes nodes).checkedAt node.path.nativeBytes = .ok node := by
  apply Map.checkedAt_of_lookup
  apply Map.lookup_emplaceAll_of_mem
  · have bytes := distinct.map (f := GameRelativePath.nativeBytes)
      fun _ _ => GameRelativePath.nativeBytes_inj.mp
    rwa [List.map_map] at bytes ⊢
  · exact List.mem_map.mpr ⟨node, member, rfl⟩

def ReportsObstruction (nodes : List FileOwnershipNode) (obstruction : PathObstruction)
    (diagnostic : ConflictDiagnostic) : Prop :=
  ∃ ancestor ∈ nodes, ∃ descendant ∈ nodes, ancestor.path = obstruction.ancestorPath ∧
    descendant.path = obstruction.descendantPath ∧
    diagnostic = ⟨.pathObstruction, .error, obstruction.ancestorPath,
      some obstruction.descendantPath, ancestor.claims ++ descendant.claims, none,
      .correctPackageLayout⟩

theorem reportObstructions_spec {graph : FileOwnershipGraph} (draft : Draft)
    (distinct : (graph.nodes.map (·.path)).Nodup)
    (inside : ∀ obstruction ∈ graph.obstructions,
      (∃ node ∈ graph.nodes, node.path = obstruction.ancestorPath) ∧
        ∃ node ∈ graph.nodes, node.path = obstruction.descendantPath) :
    ∃ reported, graph.obstructions.foldlM (reportObstruction (indexNodes graph.nodes)) draft =
        .ok ⟨draft.decisions, draft.diagnostics ++ reported,
          draft.hasBlockingConflicts || !graph.obstructions.isEmpty⟩ ∧
      List.Forall₂ (ReportsObstruction graph.nodes) graph.obstructions reported := by
  obtain ⟨_, ran, reported, rfl, reports⟩ := foldlM_total
    (reportObstruction (indexNodes graph.nodes)) graph.obstructions draft
    (fun visited next => ∃ reported,
      next = ⟨draft.decisions, draft.diagnostics ++ reported,
        draft.hasBlockingConflicts || !visited.isEmpty⟩ ∧
      List.Forall₂ (ReportsObstruction graph.nodes) visited reported)
    ⟨[], by simp, .nil⟩
    (by
      rintro visited obstruction member _ ⟨reported, rfl, reports⟩
      obtain ⟨⟨ancestor, ancestorIn, ancestorPath⟩, ⟨descendant, descendantIn, descendantPath⟩⟩ :=
        inside obstruction member
      have foundAbove := checkedAt_indexNodes distinct ancestorIn
      have foundBelow := checkedAt_indexNodes distinct descendantIn
      rw [ancestorPath] at foundAbove
      rw [descendantPath] at foundBelow
      refine ⟨_, by simp only [reportObstruction, foundAbove, foundBelow, Checked.ok_bind]; rfl,
        reported ++ [_], ?_, List.rel_append reports (.cons ⟨ancestor, ancestorIn, descendant,
          descendantIn, ancestorPath, descendantPath, rfl⟩ .nil)⟩
      simp [Draft.addDiagnostic, Draft.block])
  exact ⟨reported, ran, reports⟩

structure Created (graph : FileOwnershipGraph) (priorityOrder : List PackageId)
    (report : ConflictResolutionReport) : Prop where
  policy : report.policy = ⟨priorityOrder⟩
  decided : List.Forall₂ (Decides priorityOrder) graph.nodes report.decisions
  blocking : report.hasBlockingConflicts =
    (report.decisions.any isUnresolved || !graph.obstructions.isEmpty)

variable {order : List PackageId} {claims : List PackagePathClaim} {graph : FileOwnershipGraph}
  {priorityOrder : List PackageId}

theorem accepted_eq {policy : ConflictResolutionPolicy}
    (accepted : ConflictResolutionPolicy.create graph priorityOrder = .ok policy) :
    ConflictResolutionPolicy.create graph priorityOrder = .ok ⟨priorityOrder⟩ := by
  rw [accepted, (ConflictResolutionPolicy.create_eq_ok_iff.mp accepted).1]

theorem claims_known (owned : FileOwnershipGraph.Created order claims graph)
    {policy : ConflictResolutionPolicy}
    (accepted : ConflictResolutionPolicy.create graph priorityOrder = .ok policy) :
    ∀ node ∈ graph.nodes, ∀ claim ∈ node.claims, claim.packageId ∈ priorityOrder := by
  intro node member claim claimed
  have made := (FileOwnershipGraph.mem_claimsAt.mp ((owned.perm node member).subset claimed)).1
  rw [(ConflictResolutionPolicy.create_eq_ok_iff.mp accepted).2.2, owned.packageOrder]
  exact owned.enabled claim made

/-- No checked lookup fails on an accepted priority order; the report holds a decision for each
node, the diagnostics of the decisions and then those of the obstructions. -/
theorem create_eq_of_accepted (owned : FileOwnershipGraph.Created order claims graph)
    (accepted : ConflictResolutionPolicy.create graph priorityOrder = .ok ⟨priorityOrder⟩) :
    ∃ decisions reported, create graph priorityOrder =
        .ok (.ok ⟨⟨priorityOrder⟩, decisions, decisions.flatMap diagnosticsOf ++ reported,
          decisions.any isUnresolved || !graph.obstructions.isEmpty⟩) ∧
      List.Forall₂ (Decides priorityOrder) graph.nodes decisions ∧
      List.Forall₂ (ReportsObstruction graph.nodes) graph.obstructions reported := by
  obtain ⟨decisions, ran, decided⟩ := resolveNodes_spec (claims_known owned accepted)
  have inside : ∀ obstruction ∈ graph.obstructions,
      (∃ node ∈ graph.nodes, node.path = obstruction.ancestorPath) ∧
        ∃ node ∈ graph.nodes, node.path = obstruction.descendantPath := by
    intro obstruction member
    rw [owned.obstructions, owned.sorted.mem_buildObstructions_iff] at member
    obtain ⟨ancestor, ancestorIn, _, descendant, descendantIn, _, rfl⟩ := member
    exact ⟨⟨ancestor, ancestorIn, rfl⟩, ⟨descendant, descendantIn, rfl⟩⟩
  obtain ⟨reported, ran', reports⟩ := reportObstructions_spec
    ⟨decisions, decisions.flatMap diagnosticsOf, decisions.any isUnresolved⟩ owned.sorted.nodup
    inside
  refine ⟨decisions, reported, ?_, decided, reports⟩
  simp only [create, accepted, ran, ran', Checked.ok_bind]
  rfl

theorem create_of_accepted (owned : FileOwnershipGraph.Created order claims graph)
    (accepted : ConflictResolutionPolicy.create graph priorityOrder = .ok ⟨priorityOrder⟩) :
    ∃ report, create graph priorityOrder = .ok (.ok report) ∧
      Created graph priorityOrder report := by
  obtain ⟨decisions, reported, ran, decided, _⟩ := create_eq_of_accepted owned accepted
  exact ⟨_, ran, rfl, decided, rfl⟩

theorem created_of_create (owned : FileOwnershipGraph.Created order claims graph)
    {report : ConflictResolutionReport} (h : create graph priorityOrder = .ok (.ok report)) :
    ConflictResolutionPolicy.create graph priorityOrder = .ok ⟨priorityOrder⟩ ∧
      Created graph priorityOrder report := by
  have accepted : ConflictResolutionPolicy.create graph priorityOrder = .ok ⟨priorityOrder⟩ := by
    cases ran : ConflictResolutionPolicy.create graph priorityOrder with
    | error error => rw [create, ran] at h; cases h
    | ok policy => rw [(ConflictResolutionPolicy.create_eq_ok_iff.mp ran).1]
  obtain ⟨report', ran, created⟩ := create_of_accepted owned accepted
  obtain rfl := Except.ok.inj (Except.ok.inj (ran.symm.trans h))
  exact ⟨accepted, created⟩

end Report

end ConflictResolutionReport

end FastModManager.Domain
