import FastModManager.Domain.FileOwnershipGraph
import Mathlib.Data.Prod.Lex

namespace FastModManager.Domain.FileOwnershipGraph

open Foundation

theorem rankClaims_of_enabled {order : List PackageId} {items : List (PackagePathClaim × Nat)}
    (enabled : ∀ item ∈ items, item.1.packageId ∈ order) :
    rankClaims (Map.indexAll order) items =
      .ok (items.map fun item => ⟨item.1, order.idxOf item.1.packageId, item.2⟩) := by
  induction items with
  | nil => rfl
  | cons item items ih =>
    obtain ⟨claim, index⟩ := item
    have first : claim.packageId ∈ order := enabled _ List.mem_cons_self
    simp only [rankClaims, Map.lookup_indexAll, if_pos first,
      ih fun item member => enabled item (List.mem_cons_of_mem _ member), List.map_cons]

theorem enabled_of_rankClaims {order : List PackageId} {items : List (PackagePathClaim × Nat)}
    {ranked : List RankedClaim} (h : rankClaims (Map.indexAll order) items = .ok ranked) :
    ∀ item ∈ items, item.1.packageId ∈ order := by
  induction items generalizing ranked with
  | nil => simp
  | cons item items ih =>
    obtain ⟨claim, index⟩ := item
    simp only [rankClaims, Map.lookup_indexAll] at h
    by_cases first : claim.packageId ∈ order
    · cases rest : rankClaims (Map.indexAll order) items with
      | error error => simp [first, rest] at h
      | ok others => simpa using ⟨first, fun a b => ih rest (a, b)⟩
    · simp [first] at h

def sortKey (ranked : RankedClaim) : Bytes ×ₗ Nat ×ₗ Nat :=
  toLex (ranked.claim.gameRelativePath.nativeBytes, toLex (ranked.rank, ranked.index))

theorem claimLess_iff (left right : RankedClaim) :
    claimLess left right = true ↔ sortKey left < sortKey right := by
  simp only [claimLess, sortKey, Prod.Lex.toLex_lt_toLex]
  by_cases path : left.claim.gameRelativePath.nativeBytes =
      right.claim.gameRelativePath.nativeBytes
  · by_cases rank : left.rank = right.rank <;> simp [path, rank]
  · simp [path, bytesLess_iff]

theorem sorted_by_path (ranked : List RankedClaim) :
    (sortBy claimLess ranked).Pairwise fun left right =>
      left.claim.gameRelativePath.nativeBytes ≤ right.claim.gameRelativePath.nativeBytes := by
  apply (sortBy_pairwise sortKey claimLess_iff ranked).imp
  intro left right h
  rcases Prod.Lex.toLex_le_toLex.mp h with less | ⟨same, _⟩
  · exact le_of_lt less
  · exact le_of_eq same

def claimsAt (claims : List PackagePathClaim) (path : GameRelativePath) : List PackagePathClaim :=
  claims.filter fun claim => claim.gameRelativePath = path

theorem mem_claimsAt {claims : List PackagePathClaim} {path : GameRelativePath}
    {claim : PackagePathClaim} :
    claim ∈ claimsAt claims path ↔ claim ∈ claims ∧ claim.gameRelativePath = path := by
  simp [claimsAt]

theorem claimsAt_perm {claims claims' : List PackagePathClaim} (perm : claims.Perm claims')
    (path : GameRelativePath) : (claimsAt claims path).Perm (claimsAt claims' path) :=
  perm.filter _

def LiesUnder (ancestor descendant : GameRelativePath) : Prop :=
  (ancestor.nativeBytes = [] ∧ descendant.nativeBytes ≠ []) ∨
    ancestor.nativeBytes ++ [slash] <+: descendant.nativeBytes

theorem LiesUnder.ne {ancestor descendant : GameRelativePath} (h : LiesUnder ancestor descendant) :
    ancestor ≠ descendant := by
  rintro rfl
  rcases h with ⟨empty, nonempty⟩ | ⟨rest, split⟩
  · exact nonempty empty
  · simpa using congrArg List.length split

structure SortedNodes (nodes : List FileOwnershipNode) : Prop where
  increasing : nodes.Pairwise fun left right => left.path.nativeBytes < right.path.nativeBytes
  nonempty : ∀ node ∈ nodes, node.claims ≠ []
  same_path : ∀ node ∈ nodes, ∀ claim ∈ node.claims, claim.gameRelativePath = node.path

theorem SortedNodes.nodup {nodes : List FileOwnershipNode} (sorted : SortedNodes nodes) :
    (nodes.map (·.path)).Nodup := by
  apply List.Pairwise.map _ _ sorted.increasing
  intro left right less same
  exact absurd (congrArg GameRelativePath.nativeBytes same) less.ne

section Grouping

variable (claims : List PackagePathClaim) (order : List PackageId)

def rankedClaims : List RankedClaim :=
  claims.zipIdx.map fun item => ⟨item.1, order.idxOf item.1.packageId, item.2⟩

theorem rankedClaims_claims : (rankedClaims claims order).map (·.claim) = claims := by
  simp [rankedClaims, Function.comp_def]

theorem mem_groupNodes_iff (node : FileOwnershipNode) :
    node ∈ groupNodes (sortBy claimLess (rankedClaims claims order)) ↔
      node.claims = ((sortBy claimLess (rankedClaims claims order)).map (·.claim)).filter
        (fun claim => claim.gameRelativePath = node.path) ∧
      ∃ claim ∈ claims, claim.gameRelativePath = node.path := by
  have sorted := sorted_by_path (rankedClaims claims order)
  have claimed : (∃ claim ∈ claims, claim.gameRelativePath = node.path) ↔
      ∃ ranked ∈ sortBy claimLess (rankedClaims claims order),
        ranked.claim.gameRelativePath.nativeBytes = node.path.nativeBytes := by
    conv_lhs => rw [← rankedClaims_claims claims order]
    simp [(sortBy_perm claimLess _).mem_iff, GameRelativePath.nativeBytes_inj]
  rw [claimed, groupNodes, List.mem_map]
  constructor
  · rintro ⟨⟨path, group⟩, member, rfl⟩
    obtain ⟨rfl, found⟩ := (mem_groupRuns_iff _ sorted path group).mp member
    refine ⟨?_, found⟩
    simp [List.filter_map, Function.comp_def, GameRelativePath.ext_iff]
  · rintro ⟨same, found⟩
    refine ⟨(node.path.nativeBytes, _), (mem_groupRuns_iff _ sorted _ _).mpr ⟨rfl, found⟩, ?_⟩
    obtain ⟨path, nodeClaims⟩ := node
    simp only at same
    simp [same, List.filter_map, Function.comp_def, GameRelativePath.ext_iff]

theorem sortedNodes_groupNodes :
    SortedNodes (groupNodes (sortBy claimLess (rankedClaims claims order))) where
  increasing := by
    have keys := groupRuns_keys _ (sorted_by_path (rankedClaims claims order))
    rw [groupNodes, List.pairwise_map]
    exact List.pairwise_map.mp keys
  nonempty := by
    intro node member
    obtain ⟨group, found, rfl⟩ := List.mem_map.mp member
    simpa using (groupRuns_members _ _ group found).1
  same_path := by
    intro node member claim claimed
    obtain ⟨same, _⟩ := (mem_groupNodes_iff claims order node).mp member
    rw [same] at claimed
    simpa using (List.mem_filter.mp claimed).2

theorem groupNodes_claims_perm {node : FileOwnershipNode}
    (member : node ∈ groupNodes (sortBy claimLess (rankedClaims claims order))) :
    node.claims.Perm (claimsAt claims node.path) := by
  rw [((mem_groupNodes_iff claims order node).mp member).1, claimsAt]
  apply List.Perm.filter
  conv_rhs => rw [← rankedClaims_claims claims order]
  exact (sortBy_perm claimLess _).map _

end Grouping

section Obstructions

variable {nodes : List FileOwnershipNode}

instance (ancestor descendant : GameRelativePath) : Decidable (LiesUnder ancestor descendant) :=
  inferInstanceAs (Decidable (_ ∨ _))

theorem SortedNodes.obstructedBy_eq (sorted : SortedNodes nodes) (ancestor : FileOwnershipNode) :
    obstructedBy nodes ancestor = nodes.filter fun node => LiesUnder ancestor.path node.path := by
  unfold obstructedBy
  split
  · rename_i root
    apply List.filter_congr
    intro node _
    have below : [slash] <+: node.path.nativeBytes → node.path.nativeBytes ≠ [] := by
      rintro ⟨rest, split⟩ empty
      simp [empty] at split
    simpa [LiesUnder, root] using below
  · rename_i inner
    rw [takeWhile_drop_lowerBound]
    · apply List.filter_congr
      intro node _
      rw [Bool.eq_iff_iff, List.isPrefixOf_iff_prefix]
      simp [LiesUnder, inner]
    · apply sorted.increasing.imp
      intro left right less before
      rw [bytesLess_iff] at before ⊢
      exact less.trans before
    · intro node _ found
      rw [bytesLess_eq_false]
      exact le_of_isPrefix (List.isPrefixOf_iff_prefix.mp found)
    · apply sorted.increasing.imp
      intro left right less after found
      rw [List.isPrefixOf_iff_prefix] at found ⊢
      exact isPrefix_of_between ((bytesLess_eq_false _ _).mp after) less.le found

theorem SortedNodes.mem_buildObstructions_iff (sorted : SortedNodes nodes)
    (obstruction : PathObstruction) :
    obstruction ∈ buildObstructions nodes ↔
      ∃ ancestor ∈ nodes, containsNonDirectory ancestor = true ∧ ∃ descendant ∈ nodes,
        LiesUnder ancestor.path descendant.path ∧
          obstruction = ⟨ancestor.path, descendant.path⟩ := by
  simp only [buildObstructions, sorted.obstructedBy_eq, List.mem_flatMap, List.mem_filter,
    List.mem_map, decide_eq_true_eq, and_assoc, eq_comm (a := obstruction)]

end Obstructions

section Created

structure Created (order : List PackageId) (claims : List PackagePathClaim)
    (graph : FileOwnershipGraph) : Prop where
  enabled : ∀ claim ∈ claims, claim.packageId ∈ order
  packageOrder : graph.packageOrder = order
  sorted : SortedNodes graph.nodes
  claimed_iff : ∀ path, (∃ node ∈ graph.nodes, node.path = path) ↔
    ∃ claim ∈ claims, claim.gameRelativePath = path
  perm : ∀ node ∈ graph.nodes, node.claims.Perm (claimsAt claims node.path)
  obstructions : graph.obstructions = buildObstructions graph.nodes

theorem create_of_enabled {packageGraph : PackageDependencyGraph} {claims : List PackagePathClaim}
    (enabled : ∀ claim ∈ claims, claim.packageId ∈ packageGraph.resolvedOrder) :
    ∃ graph, create packageGraph claims = .ok graph ∧
      Created packageGraph.resolvedOrder claims graph := by
  have ran := rankClaims_of_enabled fun (item : PackagePathClaim × Nat) member =>
    enabled item.1 (List.fst_mem_of_mem_zipIdx (k := 0) member)
  simp only [create, ran]
  refine ⟨_, rfl, enabled, rfl, sortedNodes_groupNodes _ _, ?_,
    fun node member => groupNodes_claims_perm _ _ member, rfl⟩
  intro path
  constructor
  · rintro ⟨node, member, rfl⟩
    exact ((mem_groupNodes_iff _ _ _).mp member).2
  · intro claimed
    let members := (sortBy claimLess (rankedClaims claims packageGraph.resolvedOrder)).map (·.claim)
    let node : FileOwnershipNode :=
      ⟨path, members.filter fun claim => claim.gameRelativePath = path⟩
    exact ⟨node, (mem_groupNodes_iff _ _ node).mpr ⟨rfl, claimed⟩, rfl⟩

theorem created_of_create {packageGraph : PackageDependencyGraph} {claims : List PackagePathClaim}
    {graph : FileOwnershipGraph} (h : create packageGraph claims = .ok graph) :
    Created packageGraph.resolvedOrder claims graph := by
  have enabled : ∀ claim ∈ claims, claim.packageId ∈ packageGraph.resolvedOrder := by
    intro claim member
    unfold create at h
    split at h
    · cases h
    · rename_i ranked ran
      obtain ⟨index, inside, rfl⟩ := List.mem_iff_getElem.mp member
      exact enabled_of_rankClaims ran (claims[index], index)
        (List.mk_mem_zipIdx_iff_getElem?.mpr (List.getElem?_eq_getElem inside))
  obtain ⟨graph', ran, created⟩ := create_of_enabled enabled
  obtain rfl := Except.ok.inj (ran.symm.trans h)
  exact created

end Created

end FastModManager.Domain.FileOwnershipGraph
