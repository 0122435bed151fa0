import FastModManager.Domain.NamespacePlanning
import FastModManager.Domain.OwnershipGrouping

namespace FastModManager.Domain.NamespaceCompilationResult

open Foundation
open ConflictResolutionReport (Decides)

def explainedOrigin : NamespaceEntryExplanationKind → CompiledNamespaceEntryOrigin
  | .uncontestedClaim => .singleClaim
  | .mergedDirectory => .mergedDirectories
  | .priorityWinner => .priorityWinner
  | .syntheticAncestorDirectory => .syntheticDirectory

def explainedKind (selectedClaim : Option PackagePathClaim) : PackageEntryKind :=
  (selectedClaim.map (·.kind)).getD .directory

structure Explains (graph : FileOwnershipGraph) (entry : CompiledNamespaceEntry)
    (explanation : NamespaceEntryExplanation) : Prop where
  path : explanation.path = entry.path
  origin : entry.origin = explainedOrigin explanation.kind
  kind : entry.kind = explainedKind explanation.selectedClaim
  synthetic_iff : explanation.kind = .syntheticAncestorDirectory ↔
    ∀ node ∈ graph.nodes, node.path ≠ explanation.path
  contenders : ∀ node ∈ graph.nodes, node.path = explanation.path →
    explanation.contenders = node.claims
  unclaimed : (∀ node ∈ graph.nodes, node.path ≠ explanation.path) → explanation.contenders = []
  selected_mem : ∀ claim, explanation.selectedClaim = some claim → claim ∈ explanation.contenders
  selected_eq : ∀ claim, entry.selectedClaim = some claim → explanation.selectedClaim = some claim
  hidden : ∀ claim, explanation.selectedClaim = some claim → entry.selectedClaim = none →
    explanation.kind = .uncontestedClaim ∧ explanation.contenders = [claim] ∧
      claim.kind = .directory

structure ExplainsNode (node : FileOwnershipNode) (data : CompiledEntryData) : Prop where
  path : data.path = node.path
  contenders : data.contenders = node.claims
  claimed : data.explanationKind ≠ .syntheticAncestorDirectory
  origin : data.origin = explainedOrigin data.explanationKind
  kind : data.kind = explainedKind data.explanationSelectedClaim
  selected_mem : ∀ claim, data.explanationSelectedClaim = some claim → claim ∈ node.claims
  selected_eq : ∀ claim, data.selectedClaim = some claim →
    data.explanationSelectedClaim = some claim
  hidden : ∀ claim, data.explanationSelectedClaim = some claim → data.selectedClaim = none →
    data.explanationKind = .uncontestedClaim ∧ node.claims = [claim] ∧ claim.kind = .directory

theorem explainsNode_of_compileDecision {priorityOrder : List PackageId} {node : FileOwnershipNode}
    {decision : ExactPathDecision} {data : CompiledEntryData}
    (decides : Decides priorityOrder node decision)
    (compiled : compileDecision decision = .ok data) :
    ExplainsNode node data := by
  obtain ⟨path, kind, claims, selectedClaim⟩ := decision
  obtain ⟨rfl, rfl, verdict⟩ := decides
  simp only at verdict
  cases verdict with
  | @singleClaim claim single =>
    have sole : ∀ other, some claim = some other → node.claims = [other] := by
      intro other same
      rw [single, Option.some.inj same]
    have made : ∀ other, some claim = some other → other ∈ node.claims := by
      intro other same
      simp [sole other same]
    simp only [compileDecision] at compiled
    split at compiled
    · cases compiled
    · split at compiled
      · rename_i directory
        obtain rfl := Except.ok.inj compiled
        refine ⟨rfl, rfl, by simp, rfl, directory.symm, made, by simp, ?_⟩
        intro other same _
        exact ⟨rfl, sole other same, Option.some.inj same ▸ directory⟩
      · obtain rfl := Except.ok.inj compiled
        exact ⟨rfl, rfl, by simp, rfl, rfl, made, fun _ same => same, by simp⟩
  | mergedDirectories several directories =>
    simp only [compileDecision] at compiled
    split at compiled
    · cases compiled
    · obtain rfl := Except.ok.inj compiled
      exact ⟨rfl, rfl, by simp, rfl, rfl, by simp, by simp, by simp⟩
  | @priorityWinner winner several files wins =>
    simp only [compileDecision] at compiled
    split at compiled
    · cases compiled
    · obtain rfl := Except.ok.inj compiled
      refine ⟨rfl, rfl, by simp, rfl, rfl, ?_, fun _ same => same, by simp⟩
      intro other same
      exact Option.some.inj same ▸ wins.mem
  | mixed => cases compiled
  | ambiguous => cases compiled

section Compiled

variable {report : ConflictResolutionReport} {result : NamespaceCompilationResult}

theorem compile_eq_ok (compiled : compile report = .ok result) :
    ∃ decided data, List.Forall₂ (fun decision data => compileDecision decision = .ok data)
        report.decisions decided ∧
      List.Perm data (decided ++ (syntheticAncestors report.decisions).map syntheticData) ∧
      result.compiledNamespace.entries = data.map CompiledEntryData.entry ∧
      result.explanations = data.map CompiledEntryData.explanation := by
  unfold compile at compiled
  split at compiled
  · cases compiled
  · split at compiled
    · cases compiled
    · rename_i decided ran
      obtain rfl := Except.ok.inj compiled
      exact ⟨decided, _, mapM_eq_ok_iff.mp ran, sortBy_perm _ _, rfl, rfl⟩

variable {graph : FileOwnershipGraph}

theorem ExplainsNode.explains (sorted : FileOwnershipGraph.SortedNodes graph.nodes)
    {node : FileOwnershipNode} (nodeIn : node ∈ graph.nodes) {data : CompiledEntryData}
    (exact : ExplainsNode node data) : Explains graph data.entry data.explanation where
  path := rfl
  origin := exact.origin
  kind := exact.kind
  synthetic_iff :=
    ⟨fun synthetic => absurd synthetic exact.claimed,
      fun unclaimed => absurd exact.path.symm (unclaimed node nodeIn)⟩
  contenders other otherIn same := by
    obtain rfl : other = node := List.inj_on_of_nodup_map sorted.nodup otherIn nodeIn
      (same.trans exact.path)
    exact exact.contenders
  unclaimed unclaimed := absurd exact.path.symm (unclaimed node nodeIn)
  selected_mem claim selected := by
    have member := exact.selected_mem claim selected
    rwa [← exact.contenders] at member
  selected_eq := exact.selected_eq
  hidden claim selected absent := by
    have hidden := exact.hidden claim selected absent
    rwa [← exact.contenders] at hidden

theorem explains_synthetic {path : GameRelativePath}
    (unclaimed : ∀ node ∈ graph.nodes, node.path ≠ path) :
    Explains graph (syntheticData path).entry (syntheticData path).explanation where
  path := rfl
  origin := rfl
  kind := rfl
  synthetic_iff := ⟨fun _ => unclaimed, fun _ => rfl⟩
  contenders node member same := absurd same (unclaimed node member)
  unclaimed _ := rfl
  selected_mem := nofun
  selected_eq := nofun
  hidden := nofun

end Compiled

theorem compile_explains_each_entry (packageGraph : PackageDependencyGraph)
    (claims : List PackagePathClaim) (graph : FileOwnershipGraph) (priorityOrder : List PackageId)
    (report : ConflictResolutionReport) (result : NamespaceCompilationResult)
    (h : FileOwnershipGraph.create packageGraph claims = .ok graph)
    (reported : ConflictResolutionReport.create graph priorityOrder = .ok (.ok report))
    (compiled : compile report = .ok result) :
    result.explanations.length = result.compiledNamespace.entries.length ∧
      List.Forall₂ (Explains graph) result.compiledNamespace.entries result.explanations ∧
      (result.explanations.flatMap (·.contenders)).Perm claims := by
  have owned := FileOwnershipGraph.created_of_create h
  have created := (ConflictResolutionReport.created_of_create owned reported).2
  obtain ⟨decided, data, decisions, perm, entries, explanations⟩ := compile_eq_ok compiled
  have exact : List.Forall₂ ExplainsNode graph.nodes decided :=
    forall₂_comp created.decided decisions explainsNode_of_compileDecision
  refine ⟨by rw [entries, explanations, List.length_map, List.length_map], ?_, ?_⟩
  · rw [entries, explanations, List.forall₂_map_left_iff, List.forall₂_map_right_iff,
      List.forall₂_same]
    intro compiledData member
    rcases List.mem_append.mp (perm.subset member) with claimed | synthetic
    · obtain ⟨node, nodeIn, explained⟩ := exists_left_of_forall₂ exact claimed
      exact explained.explains owned.sorted nodeIn
    · obtain ⟨path, ancestor, rfl⟩ := List.mem_map.mp synthetic
      apply explains_synthetic
      intro node nodeIn same
      obtain ⟨decision, decisionIn, decides⟩ := exists_right_of_forall₂ created.decided nodeIn
      exact (mem_syntheticAncestors.mp ancestor).2 decision decisionIn (decides.path.trans same)
  · have contenders : result.explanations.flatMap (·.contenders) = data.flatMap (·.contenders) := by
      rw [explanations, List.flatMap_map]
      rfl
    have fromNodes : decided.flatMap (·.contenders) = graph.nodes.flatMap (·.claims) := by
      rw [List.flatMap_def, List.flatMap_def,
        map_eq_of_forall₂ (fun explained => explained.contenders.symm) exact]
    have none : ((syntheticAncestors report.decisions).map syntheticData).flatMap
        (·.contenders) = [] := by
      rw [List.flatMap_map]
      exact List.flatMap_eq_nil_iff.mpr fun _ _ => rfl
    have listed := perm.flatMap_right (·.contenders)
    rw [List.flatMap_append, none, List.append_nil, fromNodes] at listed
    rw [contenders]
    exact listed.trans (FileOwnershipGraph.exactGrouping_of_create h).perm

theorem compile_explains_each_entry_of_contested :
    PlanningRun.contestedResult.explanations.length = PlanningRun.contestedEntries.length ∧
      List.Forall₂ (Explains PlanningRun.contested.ownershipGraph) PlanningRun.contestedEntries
        PlanningRun.contestedResult.explanations ∧
      (PlanningRun.contestedResult.explanations.flatMap (·.contenders)).Perm
        PlanningRun.contestedClaims :=
  compile_explains_each_entry PlanningRun.contested.packageGraph PlanningRun.contestedClaims
    PlanningRun.contested.ownershipGraph [⟨[1]⟩, ⟨[2]⟩] PlanningRun.contested.report
    PlanningRun.contestedResult (by decide) (by decide) (by decide)

end FastModManager.Domain.NamespaceCompilationResult
