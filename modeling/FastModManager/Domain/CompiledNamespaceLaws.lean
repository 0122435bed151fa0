import FastModManager.Domain.NamespacePlan

namespace FastModManager.Domain.NamespaceCompilationResult

open Foundation NamespacePlan
open FileOwnershipGraph (isDirectory containsNonDirectory claimsAt mem_claimsAt LiesUnder)
open ConflictResolutionReport (Wins Verdict Decides isUnresolved)

section Ancestors

theorem mem_separatorsFrom {index position : Nat} {path : Bytes} :
    position ∈ separatorsFrom index path ↔
      ∃ offset, path[offset]? = some slash ∧ position = index + offset := by
  induction path generalizing index with
  | nil => simp [separatorsFrom]
  | cons byte rest ih =>
    have first_or_later :
        (∃ offset, (byte :: rest)[offset]? = some slash ∧ position = index + offset) ↔
          (byte = slash ∧ position = index) ∨
            ∃ offset, rest[offset]? = some slash ∧ position = index + 1 + offset := by
      constructor
      · rintro ⟨_ | offset, found, rfl⟩
        · exact .inl ⟨by simpa using found, rfl⟩
        · exact .inr ⟨offset, by simpa using found, by omega⟩
      · rintro (⟨rfl, rfl⟩ | ⟨offset, found, rfl⟩)
        · exact ⟨0, rfl, rfl⟩
        · exact ⟨offset + 1, by simpa using found, by omega⟩
    rw [first_or_later, ← ih, separatorsFrom]
    split <;> simp [*]

theorem mem_ancestorsOf {ancestor path : Bytes} :
    ancestor ∈ ancestorsOf path ↔ IsAncestor ancestor path := by
  simp only [ancestorsOf, List.mem_map, List.mem_filter, mem_separatorsFrom, IsAncestor,
    decide_eq_true_eq, Nat.pos_iff_ne_zero, Nat.zero_add]
  constructor
  · rintro ⟨position, ⟨⟨_, separator, rfl⟩, positive⟩, rfl⟩
    exact ⟨position, positive, separator, rfl⟩
  · rintro ⟨position, positive, separator, rfl⟩
    exact ⟨position, ⟨⟨position, separator, rfl⟩, positive⟩, rfl⟩

theorem mem_syntheticAncestors {decisions : List ExactPathDecision} {path : GameRelativePath} :
    path ∈ syntheticAncestors decisions ↔
      (∃ decision ∈ decisions, IsAncestor path.nativeBytes decision.path.nativeBytes) ∧
        ∀ decision ∈ decisions, decision.path ≠ path := by
  obtain ⟨bytes⟩ := path
  simp [syntheticAncestors, mem_insertedInto, mem_ancestorsOf, GameRelativePath.ext_iff]

theorem nodup_syntheticAncestors (decisions : List ExactPathDecision) :
    (syntheticAncestors decisions).Nodup :=
  (nodup_insertedInto _ _).map fun _ _ => congrArg GameRelativePath.nativeBytes

end Ancestors

section Decisions

variable {priorityOrder : List PackageId}

theorem isDirectory_iff {claim : PackagePathClaim} :
    isDirectory claim = true ↔ claim.kind = .directory := by
  simp [isDirectory]

theorem isDirectory_eq_false {claim : PackagePathClaim} :
    isDirectory claim = false ↔ claim.kind ≠ .directory := by
  simp [isDirectory]

theorem compileDecision_spec {node : FileOwnershipNode} {decision : ExactPathDecision}
    (decides : Decides priorityOrder node decision) (resolved : isUnresolved decision = false)
    (nonempty : node.claims ≠ [])
    (same : ∀ claim ∈ node.claims, claim.gameRelativePath = node.path) :
    ∃ data, compileDecision decision = .ok data ∧
      ClaimedEntry priorityOrder node.path node.claims data.entry := by
  obtain ⟨path, kind, claims, selectedClaim⟩ := decision
  obtain ⟨rfl, rfl, verdict⟩ := decides
  simp only at verdict
  cases verdict with
  | @singleClaim claim single =>
    have own := same claim (by simp [single])
    by_cases directory : claim.kind = .directory
    · refine ⟨_, by simp [compileDecision, single, own, directory]; rfl, ?_⟩
      have entry : ClaimedEntry priorityOrder node.path node.claims _ :=
        .directory nonempty (by simpa [single] using directory)
      simpa [CompiledEntryData.entry, single] using entry
    · refine ⟨_, by simp [compileDecision, single, own, directory]; rfl, ?_⟩
      rw [single]
      exact .file (by simpa using directory) (wins_singleton claim)
  | mergedDirectories several directories =>
    have all : node.claims.all isDirectory = true := List.all_eq_true.mpr directories
    refine ⟨_, by simp [compileDecision, nonempty, all]; rfl, ?_⟩
    have entry : ClaimedEntry priorityOrder node.path node.claims _ :=
      .directory nonempty fun claim member => isDirectory_iff.mp (directories claim member)
    rwa [if_neg several] at entry
  | @priorityWinner winner several files wins =>
    have own := same winner wins.mem
    have file := isDirectory_eq_false.mp (files winner wins.mem)
    refine ⟨_, by simp [compileDecision, own, file]; rfl, ?_⟩
    have entry : ClaimedEntry priorityOrder node.path node.claims _ :=
      .file (fun claim member => isDirectory_eq_false.mp (files claim member)) wins
    rwa [if_neg several] at entry
  | mixed => simp [isUnresolved] at resolved
  | ambiguous => simp [isUnresolved] at resolved

theorem compileDecisions_spec {nodes : List FileOwnershipNode} {decisions : List ExactPathDecision}
    (decided : List.Forall₂ (Decides priorityOrder) nodes decisions)
    (resolved : ∀ decision ∈ decisions, isUnresolved decision = false)
    (nonempty : ∀ node ∈ nodes, node.claims ≠ [])
    (same : ∀ node ∈ nodes, ∀ claim ∈ node.claims, claim.gameRelativePath = node.path) :
    ∃ data, decisions.mapM compileDecision = .ok data ∧
      List.Forall₂ (fun node (data : CompiledEntryData) =>
        ClaimedEntry priorityOrder node.path node.claims data.entry) nodes data := by
  induction decided with
  | nil => exact ⟨[], rfl, .nil⟩
  | @cons node decision nodes decisions decides _ ih =>
    obtain ⟨data, compiled, entry⟩ := compileDecision_spec decides
      (resolved decision List.mem_cons_self) (nonempty node List.mem_cons_self)
      (same node List.mem_cons_self)
    obtain ⟨rest, compiled', entries⟩ := ih
      (fun decision member => resolved decision (List.mem_cons_of_mem _ member))
      (fun node member => nonempty node (List.mem_cons_of_mem _ member))
      (fun node member => same node (List.mem_cons_of_mem _ member))
    exact ⟨data :: rest, by rw [List.mapM_cons, compiled, compiled']; rfl, .cons entry entries⟩

end Decisions

section Blocking

variable {priorityOrder order : List PackageId} {claims : List PackagePathClaim}
  {graph : FileOwnershipGraph} {report : ConflictResolutionReport}

theorem verdict_resolved_iff {kind : ExactPathDecisionKind}
    {selectedClaim : Option PackagePathClaim}
    (verdict : Verdict priorityOrder claims kind selectedClaim) :
    kind ≠ .unresolved ↔ (2 ≤ claims.length → Resolvable priorityOrder claims) := by
  cases verdict with
  | singleClaim single => simp [single]
  | mergedDirectories several directories =>
    have resolvable : Resolvable priorityOrder claims :=
      .inl fun claim member => isDirectory_iff.mp (directories claim member)
    simp [resolvable]
  | mixed several directory other =>
    obtain ⟨first, firstIn, isDir⟩ := directory
    obtain ⟨second, secondIn, isFile⟩ := other
    have long : 2 ≤ claims.length := by
      have := List.length_pos_of_mem firstIn
      omega
    simp only [ne_eq, not_true_eq_false, false_iff]
    intro resolvable
    rcases resolvable long with directories | ⟨files, _⟩
    · exact isDirectory_eq_false.mp isFile (directories second secondIn)
    · exact files first firstIn (isDirectory_iff.mp isDir)
  | priorityWinner several files wins =>
    have resolvable : Resolvable priorityOrder claims :=
      .inr ⟨fun claim member => isDirectory_eq_false.mp (files claim member), _, wins⟩
    simp [resolvable]
  | ambiguous several nonempty files none =>
    obtain ⟨claim, member⟩ := List.exists_mem_of_ne_nil claims nonempty
    have long : 2 ≤ claims.length := by
      have := List.length_pos_of_mem member
      omega
    simp only [ne_eq, not_true_eq_false, false_iff]
    intro resolvable
    rcases resolvable long with directories | ⟨_, winner, wins⟩
    · exact isDirectory_eq_false.mp (files claim member) (directories claim member)
    · exact none winner wins

theorem containsNonDirectory_iff {node : FileOwnershipNode} :
    containsNonDirectory node = true ↔ ∃ claim ∈ node.claims, claim.kind ≠ .directory := by
  simp [containsNonDirectory]

variable (owned : FileOwnershipGraph.Created order claims graph)
  (created : ConflictResolutionReport.Created graph priorityOrder report)

include owned

theorem exists_node_of_claimed {path : GameRelativePath} (claimed : claimsAt claims path ≠ []) :
    ∃ node ∈ graph.nodes, node.path = path := by
  obtain ⟨claim, member⟩ := List.exists_mem_of_ne_nil _ claimed
  exact (owned.claimed_iff path).mpr ⟨claim, mem_claimsAt.mp member⟩

theorem unobstructed_iff :
    graph.obstructions = [] ↔ ∀ above ∈ claims, ∀ below ∈ claims, above.kind ≠ .directory →
      ¬ LiesUnder above.gameRelativePath below.gameRelativePath := by
  rw [List.eq_nil_iff_forall_not_mem, owned.obstructions]
  simp only [owned.sorted.mem_buildObstructions_iff, containsNonDirectory_iff]
  constructor
  · intro none above aboveIn below belowIn file under
    obtain ⟨ancestor, ancestorIn, ancestorPath⟩ := (owned.claimed_iff _).mpr ⟨above, aboveIn, rfl⟩
    obtain ⟨descendant, descendantIn, descendantPath⟩ :=
      (owned.claimed_iff _).mpr ⟨below, belowIn, rfl⟩
    have made : above ∈ ancestor.claims := by
      apply (owned.perm ancestor ancestorIn).symm.subset
      exact mem_claimsAt.mpr ⟨aboveIn, ancestorPath.symm⟩
    refine none _ ⟨ancestor, ancestorIn, ⟨above, made, file⟩, descendant, descendantIn, ?_, rfl⟩
    rwa [ancestorPath, descendantPath]
  · rintro none _ ⟨ancestor, ancestorIn, ⟨above, made, file⟩, descendant, descendantIn, under, _⟩
    obtain ⟨aboveIn, abovePath⟩ := mem_claimsAt.mp ((owned.perm _ ancestorIn).subset made)
    obtain ⟨below, belowIn, belowPath⟩ := (owned.claimed_iff _).mp ⟨descendant, descendantIn, rfl⟩
    rw [← abovePath, ← belowPath] at under
    exact none above aboveIn below belowIn file under

include created

theorem resolved_iff :
    (∀ decision ∈ report.decisions, isUnresolved decision = false) ↔
      ∀ path, 2 ≤ (claimsAt claims path).length →
        Resolvable priorityOrder (claimsAt claims path) := by
  constructor
  · intro resolved path several
    have claimed : claimsAt claims path ≠ [] := by
      intro empty
      simp [empty] at several
    obtain ⟨node, member, rfl⟩ := exists_node_of_claimed owned claimed
    obtain ⟨decision, decisionIn, decides⟩ := exists_right_of_forall₂ created.decided member
    have perm := owned.perm node member
    apply Resolvable.perm perm
    apply (verdict_resolved_iff decides.verdict).mp _ (by rwa [perm.length_eq])
    simpa [isUnresolved] using resolved decision decisionIn
  · intro resolvable decision member
    obtain ⟨node, nodeIn, decides⟩ := exists_left_of_forall₂ created.decided member
    have perm := owned.perm node nodeIn
    have resolved := (verdict_resolved_iff decides.verdict).mpr fun several =>
      (resolvable node.path (by rwa [← perm.length_eq])).perm perm.symm
    simpa [isUnresolved] using resolved

theorem blocking_iff : report.hasBlockingConflicts = false ↔ Plannable priorityOrder claims := by
  rw [created.blocking, Bool.or_eq_false_iff, List.any_eq_false, Bool.not_eq_false',
    List.isEmpty_iff, unobstructed_iff owned]
  simp only [Bool.not_eq_true, resolved_iff owned created]
  exact ⟨fun h => ⟨h.1, h.2⟩, fun h => ⟨h.resolvable, h.unobstructed⟩⟩

end Blocking

section Compile

variable {priorityOrder order : List PackageId} {claims : List PackagePathClaim}
  {graph : FileOwnershipGraph} {report : ConflictResolutionReport}

theorem mem_compiled_iff {decided : List CompiledEntryData} {ancestors : List GameRelativePath}
    {entry : CompiledNamespaceEntry} :
    entry ∈ (sortBy CompiledEntryData.less (decided ++ ancestors.map syntheticData)).map
        CompiledEntryData.entry ↔
      (∃ data ∈ decided, data.entry = entry) ∨
        ∃ path ∈ ancestors, entry = ⟨path, .directory, .syntheticDirectory, none, none⟩ := by
  simp only [List.mem_map, (sortBy_perm _ _).mem_iff, List.mem_append, or_and_right, exists_or]
  apply or_congr_right
  constructor
  · rintro ⟨_, ⟨path, member, rfl⟩, rfl⟩
    exact ⟨path, member, rfl⟩
  · rintro ⟨path, member, rfl⟩
    exact ⟨_, ⟨path, member, rfl⟩, rfl⟩

theorem increasing_compiled {decided : List CompiledEntryData} {ancestors : List GameRelativePath}
    (distinct : (decided.map (·.path)).Nodup) (distinct' : ancestors.Nodup)
    (disjoint : ∀ data ∈ decided, data.path ∉ ancestors) :
    ((sortBy CompiledEntryData.less (decided ++ ancestors.map syntheticData)).map
        CompiledEntryData.entry).Pairwise
      fun left right => left.path.nativeBytes < right.path.nativeBytes := by
  rw [List.pairwise_map]
  apply sortBy_increasing (fun data : CompiledEntryData => data.path.nativeBytes)
  · intro left right
    exact bytesLess_iff _ _
  · have paths : ((decided ++ ancestors.map syntheticData).map (·.path)).Nodup := by
      rw [List.map_append, List.map_map]
      have same : (CompiledEntryData.path ∘ syntheticData : GameRelativePath → _) = id := rfl
      rw [same, List.map_id]
      refine List.nodup_append.mpr ⟨distinct, distinct', ?_⟩
      rintro path claimed _ synthetic rfl
      obtain ⟨data, member, rfl⟩ := List.mem_map.mp claimed
      exact disjoint data member synthetic
    have bytes := paths.map (f := GameRelativePath.nativeBytes)
      fun _ _ => GameRelativePath.nativeBytes_inj.mp
    rwa [List.map_map] at bytes

variable (owned : FileOwnershipGraph.Created order claims graph)
  (created : ConflictResolutionReport.Created graph priorityOrder report)

include owned created

theorem exists_decision_iff {path : GameRelativePath} :
    (∃ decision ∈ report.decisions, decision.path = path) ↔
      ∃ claim ∈ claims, claim.gameRelativePath = path := by
  rw [← owned.claimed_iff, ← List.mem_map (f := ExactPathDecision.path),
    ← List.mem_map (f := FileOwnershipNode.path),
    map_eq_of_forall₂ (fun decides => decides.path.symm) created.decided]

theorem mem_syntheticAncestors_iff {path : GameRelativePath} :
    path ∈ syntheticAncestors report.decisions ↔
      (∃ claim ∈ claims, IsAncestor path.nativeBytes claim.gameRelativePath.nativeBytes) ∧
        claimsAt claims path = [] := by
  rw [mem_syntheticAncestors]
  apply and_congr
  · constructor
    · rintro ⟨decision, member, ancestor⟩
      obtain ⟨claim, claimIn, same⟩ := (exists_decision_iff owned created).mp ⟨decision, member, rfl⟩
      exact ⟨claim, claimIn, same ▸ ancestor⟩
    · rintro ⟨claim, member, ancestor⟩
      obtain ⟨decision, decisionIn, same⟩ :=
        (exists_decision_iff owned created).mpr ⟨claim, member, rfl⟩
      exact ⟨decision, decisionIn, same ▸ ancestor⟩
  · have unclaimed : (¬ ∃ decision ∈ report.decisions, decision.path = path) ↔ _ :=
      not_congr (exists_decision_iff owned created)
    simpa [claimsAt, List.filter_eq_nil_iff] using unclaimed

theorem compile_of_plannable (known : ∀ claim ∈ claims, claim.packageId ∈ priorityOrder)
    (plannable : Plannable priorityOrder claims) :
    ∃ result, compile report = .ok result ∧
      Realizes priorityOrder claims result.compiledNamespace := by
  have unblocked := (blocking_iff owned created).mpr plannable
  have resolved := (resolved_iff owned created).mpr plannable.resolvable
  obtain ⟨decided, ran, entries⟩ := compileDecisions_spec created.decided resolved
    owned.sorted.nonempty owned.sorted.same_path
  have paths : graph.nodes.map (·.path) = decided.map (·.path) :=
    map_eq_of_forall₂ (fun entry => entry.path_eq.symm) entries
  simp only [compile, unblocked, ran]
  refine ⟨_, rfl, ?_, ?_⟩
  · apply increasing_compiled
    · rw [← paths]
      exact owned.sorted.nodup
    · exact nodup_syntheticAncestors _
    · intro data member synthetic
      obtain ⟨node, nodeIn, entry⟩ := exists_left_of_forall₂ entries member
      obtain ⟨claim, claimIn, same⟩ := (owned.claimed_iff node.path).mp ⟨node, nodeIn, rfl⟩
      have unclaimed := ((mem_syntheticAncestors_iff owned created).mp synthetic).2
      have here : claim ∈ claimsAt claims data.path :=
        mem_claimsAt.mpr ⟨claimIn, same.trans entry.path_eq.symm⟩
      simp [unclaimed] at here
  · intro entry
    rw [mem_compiled_iff]
    constructor
    · rintro (⟨data, member, rfl⟩ | ⟨path, synthetic, rfl⟩)
      · obtain ⟨node, nodeIn, entry⟩ := exists_left_of_forall₂ entries member
        exact .claimed (entry.perm (owned.perm node nodeIn))
      · obtain ⟨⟨claim, member, ancestor⟩, unclaimed⟩ :=
          (mem_syntheticAncestors_iff owned created).mp synthetic
        exact .synthetic member ancestor unclaimed
    · intro planned
      cases planned with
      | claimed claimed =>
        obtain ⟨node, nodeIn, rfl⟩ := exists_node_of_claimed owned claimed.claims_ne_nil
        obtain ⟨data, member, same⟩ := exists_right_of_forall₂ entries nodeIn
        have known' : ∀ claim ∈ claimsAt claims node.path, claim.packageId ∈ priorityOrder :=
          fun claim member => known claim (mem_claimsAt.mp member).1
        exact .inl ⟨data, member, (same.perm (owned.perm node nodeIn)).unique known' claimed⟩
      | synthetic member ancestor unclaimed =>
        exact .inr ⟨_, (mem_syntheticAncestors_iff owned created).mpr
          ⟨⟨_, member, ancestor⟩, unclaimed⟩, rfl⟩

theorem compile_of_not_plannable (blocked : ¬ Plannable priorityOrder claims) :
    compile report = .error ⟨.blockingConflicts⟩ := by
  have flag : report.hasBlockingConflicts = true := by
    rw [← Bool.not_eq_false]
    exact fun unblocked => blocked ((blocking_iff owned created).mp unblocked)
  simp [compile, flag]

end Compile

end FastModManager.Domain.NamespaceCompilationResult
