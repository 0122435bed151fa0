import FastModManager.Domain.FileOwnershipGraphLaws

namespace FastModManager.Domain.FileOwnershipGraph

open Foundation

section Rejection

theorem rankClaims_error {order : List PackageId} {items : List (PackagePathClaim × Nat)}
    {error : FileOwnershipGraphError}
    (h : rankClaims (Map.indexAll order) items = .error error) :
    ∃ before item after, items = before ++ item :: after ∧
      (∀ other ∈ before, other.1.packageId ∈ order) ∧ item.1.packageId ∉ order ∧
      error = ⟨.claimPackageNotEnabled, item.1.packageId, item.2⟩ := by
  induction items with
  | nil => simp [rankClaims] at h
  | cons item items ih =>
    obtain ⟨claim, index⟩ := item
    simp only [rankClaims, Map.lookup_indexAll] at h
    by_cases first : claim.packageId ∈ order
    · cases rest : rankClaims (Map.indexAll order) items with
      | ok ranked => simp [first, rest] at h
      | error failure =>
        obtain rfl : failure = error := by simpa [first, rest] using h
        obtain ⟨before, item, after, rfl, enabled, unknown, same⟩ := ih rest
        refine ⟨(claim, index) :: before, item, after, rfl, ?_, unknown, same⟩
        exact List.forall_mem_cons.mpr ⟨first, enabled⟩
    · simp only [if_neg first, Except.error.injEq] at h
      exact ⟨[], (claim, index), items, rfl, by simp, first, h.symm⟩

structure RejectsFirstUnknown (order : List PackageId) (claims : List PackagePathClaim)
    (error : FileOwnershipGraphError) : Prop where
  code : error.code = .claimPackageNotEnabled
  claimed : ∃ claim, claims[error.claimIndex]? = some claim ∧ claim.packageId = error.packageId
  unknown : error.packageId ∉ order
  lowest : ∀ index < error.claimIndex, ∀ claim, claims[index]? = some claim →
    claim.packageId ∈ order

theorem rejectsFirstUnknown_of_rankClaims {order : List PackageId} {claims : List PackagePathClaim}
    {error : FileOwnershipGraphError}
    (h : rankClaims (Map.indexAll order) claims.zipIdx = .error error) :
    RejectsFirstUnknown order claims error := by
  obtain ⟨before, item, after, split, enabled, unknown, rfl⟩ := rankClaims_error h
  have indexed : ∀ index : Nat,
      claims.zipIdx[index]? = claims[index]?.map fun claim => (claim, index) := by
    intro index
    rw [List.getElem?_zipIdx, Nat.zero_add]
  have here := indexed before.length
  rw [split, List.getElem?_append_right (le_refl _), Nat.sub_self, List.getElem?_cons_zero] at here
  obtain ⟨claim, found, rfl⟩ := Option.map_eq_some_iff.mp here.symm
  refine ⟨rfl, ⟨claim, found, rfl⟩, unknown, ?_⟩
  intro index less other otherFound
  have earlier := indexed index
  rw [split, List.getElem?_append_left less, otherFound] at earlier
  exact enabled _ (List.mem_of_getElem? earlier)

end Rejection

section Grouping

def StandsBefore (order : List PackageId) (claims : List PackagePathClaim) (left right : Nat) :
    Prop :=
  ∃ first second, claims[left]? = some first ∧ claims[right]? = some second ∧
    (order.idxOf first.packageId < order.idxOf second.packageId ∨
      order.idxOf first.packageId = order.idxOf second.packageId ∧ left < right)

/-- The positions of the claims of a node in the claim list, in the order of the node. -/
structure Occupies (order : List PackageId) (claims : List PackagePathClaim)
    (node : FileOwnershipNode) (positions : List Nat) : Prop where
  made : positions.map (claims[·]?) = node.claims.map some
  ordered : positions.Pairwise (StandsBefore order claims)

structure ExactGrouping (order : List PackageId) (claims : List PackagePathClaim)
    (graph : FileOwnershipGraph) : Prop where
  increasing : graph.nodes.Pairwise fun left right => left.path.nativeBytes < right.path.nativeBytes
  nonempty : ∀ node ∈ graph.nodes, node.claims ≠ []
  same_path : ∀ node ∈ graph.nodes, ∀ claim ∈ node.claims, claim.gameRelativePath = node.path
  positions : ∃ positions : List (List Nat),
    List.Forall₂ (Occupies order claims) graph.nodes positions ∧
      positions.flatten.Perm (List.range claims.length)
  perm : (graph.nodes.flatMap (·.claims)).Perm claims
  claims_eq : graph.claims = claims

variable (claims : List PackagePathClaim) (order : List PackageId)

theorem mem_rankedClaims {ranked : RankedClaim} (member : ranked ∈ rankedClaims claims order) :
    claims[ranked.index]? = some ranked.claim ∧
      ranked.rank = order.idxOf ranked.claim.packageId := by
  obtain ⟨⟨claim, index⟩, found, rfl⟩ := List.mem_map.mp member
  exact ⟨List.mk_mem_zipIdx_iff_getElem?.mp found, rfl⟩

theorem rankedClaims_indexes :
    (rankedClaims claims order).map (·.index) = List.range claims.length := by
  simp [rankedClaims, Function.comp_def, List.range_eq_range']

theorem increasing_sortKey :
    (sortBy claimLess (rankedClaims claims order)).Pairwise fun left right =>
      sortKey left < sortKey right := by
  apply sortBy_increasing sortKey claimLess_iff
  have indexes : ((rankedClaims claims order).map (·.index)).Nodup := by
    rw [rankedClaims_indexes]
    exact List.nodup_range
  apply List.pairwise_map.mpr ((List.pairwise_map.mp indexes).imp _)
  intro left right differs same
  exact differs (congrArg (fun key => (ofLex (ofLex key).2).2) same)

def claimGroups : List (Bytes × List RankedClaim) :=
  groupRuns (fun ranked : RankedClaim => ranked.claim.gameRelativePath.nativeBytes)
    (sortBy claimLess (rankedClaims claims order))

theorem flatMap_claimGroups :
    (claimGroups claims order).flatMap Prod.snd = sortBy claimLess (rankedClaims claims order) :=
  flatMap_groupRuns _ _

theorem occupies_of_mem {group : Bytes × List RankedClaim}
    (member : group ∈ claimGroups claims order) :
    Occupies order claims ⟨⟨group.1⟩, group.2.map (·.claim)⟩ (group.2.map (·.index)) := by
  have part : group.2.Sublist (sortBy claimLess (rankedClaims claims order)) := by
    rw [← flatMap_claimGroups, List.flatMap_def]
    exact List.sublist_flatten_of_mem (List.mem_map_of_mem member)
  have known : ∀ ranked ∈ group.2, claims[ranked.index]? = some ranked.claim ∧
      ranked.rank = order.idxOf ranked.claim.packageId := by
    intro ranked inGroup
    exact mem_rankedClaims claims order ((sortBy_perm claimLess _).subset (part.subset inGroup))
  have same : ∀ ranked ∈ group.2, ranked.claim.gameRelativePath.nativeBytes = group.1 :=
    (groupRuns_members _ _ group member).2
  constructor
  · rw [List.map_map, List.map_map]
    exact List.map_congr_left fun ranked inGroup => (known ranked inGroup).1
  · refine List.pairwise_map.mpr (((increasing_sortKey claims order).sublist part).imp_of_mem ?_)
    intro left right inLeft inRight less
    refine ⟨left.claim, right.claim, (known left inLeft).1, (known right inRight).1, ?_⟩
    rw [← (known left inLeft).2, ← (known right inRight).2]
    rcases Prod.Lex.toLex_lt_toLex.mp less with path | ⟨_, later⟩
    · exact absurd ((same left inLeft).trans (same right inRight).symm) path.ne
    · exact Prod.Lex.toLex_lt_toLex.mp later

theorem exactGrouping_of_nodes {graph : FileOwnershipGraph} (given : graph.claims = claims)
    (nodes : graph.nodes = groupNodes (sortBy claimLess (rankedClaims claims order))) :
    ExactGrouping order claims graph := by
  obtain ⟨increasing, nonempty, same_path⟩ := sortedNodes_groupNodes claims order
  rw [← nodes] at increasing nonempty same_path
  have groups : graph.nodes = (claimGroups claims order).map
      fun group => ⟨⟨group.1⟩, group.2.map (·.claim)⟩ := nodes
  refine ⟨increasing, nonempty, same_path, ?_, ?_, given⟩
  · refine ⟨(claimGroups claims order).map fun group => group.2.map (·.index), ?_, ?_⟩
    · rw [groups, List.forall₂_map_left_iff, List.forall₂_map_right_iff, List.forall₂_same]
      exact fun group member => occupies_of_mem claims order member
    · have indexes : ((claimGroups claims order).map fun group => group.2.map (·.index)).flatten =
          (sortBy claimLess (rankedClaims claims order)).map (·.index) := by
        rw [← flatMap_claimGroups, List.map_flatMap, List.flatMap_def]
      rw [indexes, ← rankedClaims_indexes claims order]
      exact (sortBy_perm claimLess _).map _
  · have made : graph.nodes.flatMap (·.claims) =
        (sortBy claimLess (rankedClaims claims order)).map (·.claim) := by
      rw [groups, List.flatMap_map, ← flatMap_claimGroups, List.map_flatMap]
    rw [made]
    conv_rhs => rw [← rankedClaims_claims claims order]
    exact (sortBy_perm claimLess _).map _

end Grouping

theorem exactGrouping_of_create {packageGraph : PackageDependencyGraph}
    {claims : List PackagePathClaim} {graph : FileOwnershipGraph}
    (h : create packageGraph claims = .ok graph) :
    ExactGrouping packageGraph.resolvedOrder claims graph := by
  have ran := rankClaims_of_enabled fun (item : PackagePathClaim × Nat) member =>
    (created_of_create h).enabled item.1 (List.fst_mem_of_mem_zipIdx (k := 0) member)
  simp only [create, ran, Except.ok.injEq] at h
  subst h
  exact exactGrouping_of_nodes claims packageGraph.resolvedOrder rfl rfl

theorem exactCollisionPaths_of_create {packageGraph : PackageDependencyGraph}
    {claims : List PackagePathClaim} {graph : FileOwnershipGraph}
    (h : create packageGraph claims = .ok graph) :
    graph.exactCollisionPaths = (graph.nodes.filter isExactCollision).map (·.path) := by
  unfold create at h
  split at h
  · cases h
  · cases h
    rfl

theorem rejectsFirstUnknown_of_create {packageGraph : PackageDependencyGraph}
    {claims : List PackagePathClaim} {error : FileOwnershipGraphError}
    (h : create packageGraph claims = .error error) :
    RejectsFirstUnknown packageGraph.resolvedOrder claims error := by
  apply rejectsFirstUnknown_of_rankClaims
  unfold create at h
  split at h
  · rename_i failure ran
    rw [ran, ← Except.error.inj h]
  · cases h

theorem create_groups_claims (packageGraph : PackageDependencyGraph)
    (claims : List PackagePathClaim) :
    ((∃ error, create packageGraph claims = .error error) ↔
      ∃ claim ∈ claims, claim.packageId ∉ packageGraph.resolvedOrder) ∧
    match create packageGraph claims with
    | .error error => RejectsFirstUnknown packageGraph.resolvedOrder claims error
    | .ok graph => ExactGrouping packageGraph.resolvedOrder claims graph := by
  cases ran : create packageGraph claims with
  | error error =>
    have rejects := rejectsFirstUnknown_of_create ran
    obtain ⟨claim, found, same⟩ := rejects.claimed
    have unknown : ∃ claim ∈ claims, claim.packageId ∉ packageGraph.resolvedOrder :=
      ⟨claim, List.mem_of_getElem? found, same ▸ rejects.unknown⟩
    exact ⟨⟨fun _ => unknown, fun _ => ⟨error, rfl⟩⟩, rejects⟩
  | ok graph =>
    refine ⟨⟨fun failed => ?_, fun unknown => ?_⟩, exactGrouping_of_create ran⟩
    · obtain ⟨error, failure⟩ := failed
      cases failure
    · obtain ⟨claim, member, outside⟩ := unknown
      exact absurd ((created_of_create ran).enabled claim member) outside

section Obstructions

def ObstructionLess (left right : PathObstruction) : Prop :=
  left.ancestorPath.nativeBytes < right.ancestorPath.nativeBytes ∨
    left.ancestorPath = right.ancestorPath ∧
      left.descendantPath.nativeBytes < right.descendantPath.nativeBytes

theorem SortedNodes.pairwise_buildObstructions {nodes : List FileOwnershipNode}
    (sorted : SortedNodes nodes) : (buildObstructions nodes).Pairwise ObstructionLess := by
  apply List.pairwise_flatMap.mpr
  constructor
  · intro ancestor _
    rw [sorted.obstructedBy_eq]
    apply List.pairwise_map.mpr
    exact (sorted.increasing.filter _).imp fun less => .inr ⟨rfl, less⟩
  · apply (sorted.increasing.filter _).imp
    intro above below less first inFirst second inSecond
    obtain ⟨_, _, rfl⟩ := List.mem_map.mp inFirst
    obtain ⟨_, _, rfl⟩ := List.mem_map.mp inSecond
    exact .inl less

theorem nodup_of_obstructionLess {obstructions : List PathObstruction}
    (sorted : obstructions.Pairwise ObstructionLess) : obstructions.Nodup := by
  apply sorted.imp
  rintro left right less rfl
  rcases less with above | ⟨_, below⟩
  · exact lt_irrefl _ above
  · exact lt_irrefl _ below

structure Obstructs (nodes : List FileOwnershipNode) (obstruction : PathObstruction) : Prop where
  ancestor : ∃ node ∈ nodes, node.path = obstruction.ancestorPath ∧
    ∃ claim ∈ node.claims, claim.kind ≠ .directory
  descendant : ∃ node ∈ nodes, node.path = obstruction.descendantPath
  distinct : obstruction.ancestorPath ≠ obstruction.descendantPath
  below : obstruction.ancestorPath.nativeBytes = [] ∨
    obstruction.ancestorPath.nativeBytes ++ [slash] <+: obstruction.descendantPath.nativeBytes

theorem liesUnder_iff {ancestor descendant : GameRelativePath} :
    LiesUnder ancestor descendant ↔ ancestor ≠ descendant ∧
      (ancestor.nativeBytes = [] ∨ ancestor.nativeBytes ++ [slash] <+: descendant.nativeBytes) := by
  constructor
  · intro under
    exact ⟨under.ne, under.imp_left And.left⟩
  · rintro ⟨differs, root | below⟩
    · refine .inl ⟨root, fun empty => differs ?_⟩
      exact GameRelativePath.nativeBytes_inj.mp (root.trans empty.symm)
    · exact .inr below

theorem SortedNodes.mem_buildObstructions_iff_obstructs {nodes : List FileOwnershipNode}
    (sorted : SortedNodes nodes) (obstruction : PathObstruction) :
    obstruction ∈ buildObstructions nodes ↔ Obstructs nodes obstruction := by
  rw [sorted.mem_buildObstructions_iff]
  constructor
  · rintro ⟨ancestor, ancestorIn, file, descendant, descendantIn, under, rfl⟩
    obtain ⟨distinct, below⟩ := liesUnder_iff.mp under
    refine ⟨⟨ancestor, ancestorIn, rfl, ?_⟩, ⟨descendant, descendantIn, rfl⟩, distinct, below⟩
    simpa [containsNonDirectory] using file
  · obtain ⟨above, below⟩ := obstruction
    rintro ⟨⟨ancestor, ancestorIn, rfl, file⟩, ⟨descendant, descendantIn, rfl⟩, distinct, below⟩
    refine ⟨ancestor, ancestorIn, ?_, descendant, descendantIn, ?_, rfl⟩
    · simpa [containsNonDirectory] using file
    · exact liesUnder_iff.mpr ⟨distinct, below⟩

end Obstructions

theorem obstructions_eq_all_pairs (packageGraph : PackageDependencyGraph)
    (claims : List PackagePathClaim) (graph : FileOwnershipGraph)
    (h : create packageGraph claims = .ok graph) :
    (∀ obstruction, obstruction ∈ graph.obstructions ↔ Obstructs graph.nodes obstruction) ∧
      graph.obstructions.Nodup ∧ graph.obstructions.Pairwise ObstructionLess := by
  have owned := created_of_create h
  have ordered := owned.sorted.pairwise_buildObstructions
  rw [owned.obstructions]
  exact ⟨owned.sorted.mem_buildObstructions_iff_obstructs, nodup_of_obstructionLess ordered, ordered⟩

def nestedClaims : List PackagePathClaim :=
  [⟨⟨[1]⟩, ⟨[98]⟩, ⟨[97, 47, 98]⟩, .regularFile⟩, ⟨⟨[1]⟩, ⟨[97]⟩, ⟨[97]⟩, .regularFile⟩,
    ⟨⟨[1]⟩, ⟨[99]⟩, ⟨[97, 45, 98]⟩, .regularFile⟩]

theorem obstructions_eq_all_pairs_of_nested :
    ∃ graph, create ⟨[⟨[1]⟩], [], [], [⟨[1]⟩]⟩ nestedClaims = .ok graph ∧
      (∀ obstruction, obstruction ∈ graph.obstructions ↔ Obstructs graph.nodes obstruction) ∧
      graph.obstructions.Nodup ∧ graph.obstructions.Pairwise ObstructionLess :=
  ⟨_, rfl, obstructions_eq_all_pairs ⟨[⟨[1]⟩], [], [], [⟨[1]⟩]⟩ nestedClaims _ rfl⟩

example : buildObstructions
    [⟨⟨[97]⟩, [⟨⟨[1]⟩, ⟨[97]⟩, ⟨[97]⟩, .regularFile⟩]⟩, ⟨⟨[97, 45, 98]⟩, []⟩,
      ⟨⟨[97, 47, 98]⟩, []⟩] = [⟨⟨[97]⟩, ⟨[97, 47, 98]⟩⟩] := by decide

end FastModManager.Domain.FileOwnershipGraph
