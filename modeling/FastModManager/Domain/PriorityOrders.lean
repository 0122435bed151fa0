import FastModManager.Domain.ConflictResolutionLaws
import FastModManager.Domain.OwnershipGrouping
import FastModManager.Domain.PackageDependencyGraphLaws

namespace FastModManager.Domain

open Foundation

namespace ConflictResolutionPolicy

inductive DefectAt (packageOrder priorityOrder : List PackageId) (index : Nat) :
    ConflictPolicyErrorCode → PackageId → Prop
  | repeated {package : PackageId} {earlier : Nat} : priorityOrder[index]? = some package →
      earlier < index → priorityOrder[earlier]? = some package →
      DefectAt packageOrder priorityOrder index .duplicatePackage package
  | foreign {package : PackageId} : priorityOrder[index]? = some package →
      package ∉ packageOrder → DefectAt packageOrder priorityOrder index .unknownPackage package

inductive RefusedFor (packageOrder priorityOrder : List PackageId) : ConflictPolicyError → Prop
  | defect {index : Nat} {code : ConflictPolicyErrorCode} {package : PackageId} :
      DefectAt packageOrder priorityOrder index code package →
      (∀ earlier < index, ∀ code package,
        ¬ DefectAt packageOrder priorityOrder earlier code package) →
      RefusedFor packageOrder priorityOrder ⟨code, package, some index⟩
  | omission {position : Nat} {package : PackageId} :
      (∀ index code package, ¬ DefectAt packageOrder priorityOrder index code package) →
      packageOrder[position]? = some package → package ∉ priorityOrder →
      (∀ earlier < position, ∀ other, packageOrder[earlier]? = some other →
        other ∈ priorityOrder) →
      RefusedFor packageOrder priorityOrder ⟨.missingPackage, package, none⟩

variable {packageOrder priorityOrder : List PackageId}

theorem not_defectAt (nodup : priorityOrder.Nodup)
    (known : ∀ package ∈ priorityOrder, package ∈ packageOrder) (index : Nat)
    (code : ConflictPolicyErrorCode) (package : PackageId) :
    ¬ DefectAt packageOrder priorityOrder index code package := by
  intro defect
  cases defect with
  | repeated found less again =>
    have differs := List.nodup_iff_getElem?_ne_getElem?.mp nodup _ _ less
      (List.getElem?_eq_some_iff.mp found).1
    exact differs (again.trans found.symm)
  | foreign found unknown => exact unknown (known package (List.mem_of_getElem? found))

theorem refusedFor_of_seePackages {visited rest : List PackageId} {error : ConflictPolicyError}
    (clean : ∀ index < visited.length, ∀ code package,
      ¬ DefectAt packageOrder (visited ++ rest) index code package)
    (h : seePackages packageOrder.toFinset (rest.zipIdx visited.length) visited.toFinset =
      .error error) :
    RefusedFor packageOrder (visited ++ rest) error := by
  induction rest generalizing visited with
  | nil => cases h
  | cons package rest ih =>
    have here : (visited ++ package :: rest)[visited.length]? = some package := by simp
    rw [List.zipIdx_cons, seePackages] at h
    by_cases seen : package ∈ visited
    · rw [if_pos (List.mem_toFinset.mpr seen), Except.error.injEq] at h
      obtain ⟨earlier, less, same⟩ := List.mem_iff_getElem.mp seen
      have again : (visited ++ package :: rest)[earlier]? = some package := by
        rw [List.getElem?_append_left less, List.getElem?_eq_getElem less, same]
      exact h ▸ .defect (.repeated here less again) clean
    · rw [if_neg (mt List.mem_toFinset.mp seen)] at h
      by_cases known : package ∈ packageOrder
      · rw [if_neg (not_not.mpr (List.mem_toFinset.mpr known))] at h
        have accepted : ∀ code other,
            ¬ DefectAt packageOrder (visited ++ package :: rest) visited.length code other := by
          rintro _ other (⟨found, less, again⟩ | ⟨found, unknown⟩)
          · obtain rfl := Option.some.inj (here.symm.trans found)
            rw [List.getElem?_append_left less] at again
            exact seen (List.mem_of_getElem? again)
          · obtain rfl := Option.some.inj (here.symm.trans found)
            exact unknown known
        have extended : visited ++ package :: rest = visited ++ [package] ++ rest := by simp
        rw [extended] at clean accepted ⊢
        apply ih
        · intro index less
          rw [List.length_append, List.length_singleton] at less
          rcases Nat.lt_succ_iff_lt_or_eq.mp less with earlier | rfl
          · exact clean index earlier
          · exact accepted
        · rw [List.length_append, List.length_singleton, ← h]
          congr 1
          ext other
          simp
      · rw [if_pos (mt List.mem_toFinset.mp known), Except.error.injEq] at h
        exact h ▸ .defect (.foreign here known) clean

theorem refusedFor_of_create {graph : FileOwnershipGraph} {error : ConflictPolicyError}
    (h : create graph priorityOrder = .error error) :
    RefusedFor graph.packageOrder priorityOrder error := by
  unfold create at h
  split at h
  · rename_i failure ran
    have refused : RefusedFor graph.packageOrder ([] ++ priorityOrder) failure :=
      refusedFor_of_seePackages nofun ran
    exact Except.error.inj h ▸ refused
  · rename_i seen ran
    have items : priorityOrder.zipIdx.map Prod.fst = priorityOrder := by simp
    obtain ⟨nodup, fresh, known⟩ := fresh_of_seePackages ran
    have all := seePackages_of_fresh nodup fresh known
    rw [items] at nodup known all
    obtain rfl := Except.ok.inj (ran.symm.trans all)
    split at h
    · rename_i missing found
      obtain ⟨unseen, before, after, split, passed⟩ := List.find?_eq_some_iff_append.mp found
      have here : graph.packageOrder[before.length]? = some missing := by
        rw [split]
        simp
      rw [← Except.error.inj h]
      refine .omission
        (not_defectAt nodup fun package member => by simpa using known package member) here ?_ ?_
      · simpa using unseen
      · intro earlier less other there
        rw [split, List.getElem?_append_left less] at there
        simpa using passed other (List.mem_of_getElem? there)
    · cases h

/-- Exactly the permutations of the graph's packages are accepted, and kept as they are; any other
order is refused for its first defect, or else for the first package that it omits. -/
theorem create_accepts_permutations (enabledPackages : List PackageId)
    (dependencies : List PackageDependency) (orderingConstraints : List PackageOrderConstraint)
    (packageGraph : PackageDependencyGraph) (claims : List PackagePathClaim)
    (graph : FileOwnershipGraph) (priorityOrder : List PackageId)
    (resolved : PackageDependencyGraph.create enabledPackages dependencies orderingConstraints =
      .ok (.ok packageGraph))
    (owned : FileOwnershipGraph.create packageGraph claims = .ok graph) :
    ((∃ policy, create graph priorityOrder = .ok policy) ↔ priorityOrder.Perm graph.packageOrder) ∧
    match create graph priorityOrder with
    | .ok policy => policy.priorityOrder = priorityOrder
    | .error error => RefusedFor graph.packageOrder priorityOrder error := by
  have distinct : graph.packageOrder.Nodup := by
    have created := PackageDependencyGraph.created_of_create resolved
    rw [(FileOwnershipGraph.created_of_create owned).packageOrder]
    exact created.least.1.perm.nodup_iff.mpr created.valid.nodup
  constructor
  · constructor
    · rintro ⟨policy, accepted⟩
      obtain ⟨_, nodup, same⟩ := create_eq_ok_iff.mp accepted
      exact (List.perm_ext_iff_of_nodup nodup distinct).mpr same
    · intro perm
      exact ⟨⟨priorityOrder⟩, create_eq_ok_iff.mpr
        ⟨rfl, perm.nodup_iff.mpr distinct, fun package => perm.mem_iff⟩⟩
  · cases ran : create graph priorityOrder with
    | ok policy => exact congrArg (·.priorityOrder) (create_eq_ok_iff.mp ran).1
    | error error => exact refusedFor_of_create ran

theorem create_accepts_permutations_of_two :
    ((∃ policy, create ⟨[⟨[1]⟩, ⟨[2]⟩], [], [], [], []⟩ [⟨[2]⟩] = .ok policy) ↔
      List.Perm [(⟨[2]⟩ : PackageId)] [⟨[1]⟩, ⟨[2]⟩]) ∧
    RefusedFor [⟨[1]⟩, ⟨[2]⟩] [⟨[2]⟩] ⟨.missingPackage, ⟨[1]⟩, none⟩ :=
  create_accepts_permutations [⟨[1]⟩, ⟨[2]⟩] [] [] ⟨[⟨[1]⟩, ⟨[2]⟩], [], [], [⟨[1]⟩, ⟨[2]⟩]⟩ []
    ⟨[⟨[1]⟩, ⟨[2]⟩], [], [], [], []⟩ [⟨[2]⟩] (by decide) (by decide)

end ConflictResolutionPolicy

namespace ConflictResolutionReport

variable {order : List PackageId} {claims : List PackagePathClaim} {graph : FileOwnershipGraph}
  {priorityOrder : List PackageId}

/-- Every key that a report may look up is there: the package of each claim among the ranks, and
the ends of each obstruction among the nodes. -/
structure LookupsSucceed (graph : FileOwnershipGraph) (priorityOrder : List PackageId) : Prop where
  ranks : ∀ node ∈ graph.nodes, ∀ claim ∈ node.claims,
    ∃ rank, (Map.indexAll priorityOrder).checkedAt claim.packageId = .ok rank
  ancestors : ∀ obstruction ∈ graph.obstructions,
    ∃ node, (indexNodes graph.nodes).checkedAt obstruction.ancestorPath.nativeBytes = .ok node
  descendants : ∀ obstruction ∈ graph.obstructions,
    ∃ node, (indexNodes graph.nodes).checkedAt obstruction.descendantPath.nativeBytes = .ok node

theorem lookupsSucceed (owned : FileOwnershipGraph.Created order claims graph)
    {policy : ConflictResolutionPolicy}
    (accepted : ConflictResolutionPolicy.create graph priorityOrder = .ok policy) :
    LookupsSucceed graph priorityOrder where
  ranks node member claim claimed := by
    have known := claims_known owned accepted node member claim claimed
    refine ⟨priorityOrder.idxOf claim.packageId, Map.checkedAt_of_lookup ?_⟩
    rw [Map.lookup_indexAll, if_pos known]
  ancestors obstruction member := by
    rw [owned.obstructions, owned.sorted.mem_buildObstructions_iff] at member
    obtain ⟨ancestor, inside, _, _, _, _, rfl⟩ := member
    exact ⟨ancestor, checkedAt_indexNodes owned.sorted.nodup inside⟩
  descendants obstruction member := by
    rw [owned.obstructions, owned.sorted.mem_buildObstructions_iff] at member
    obtain ⟨_, _, _, descendant, inside, _, rfl⟩ := member
    exact ⟨descendant, checkedAt_indexNodes owned.sorted.nodup inside⟩

/-- The function returns, with a report on an accepted order and with the policy's error on any
other; on an accepted order every checked lookup finds its key, blocked or not. -/
theorem create_never_throws (packageGraph : PackageDependencyGraph)
    (claims : List PackagePathClaim) (graph : FileOwnershipGraph) (priorityOrder : List PackageId)
    (h : FileOwnershipGraph.create packageGraph claims = .ok graph) :
    match ConflictResolutionPolicy.create graph priorityOrder with
    | .error error => create graph priorityOrder = .ok (.error error)
    | .ok _ => LookupsSucceed graph priorityOrder ∧
        ∃ report, create graph priorityOrder = .ok (.ok report) := by
  have owned := FileOwnershipGraph.created_of_create h
  cases ran : ConflictResolutionPolicy.create graph priorityOrder with
  | error error =>
    rw [create, ran]
    rfl
  | ok policy =>
    obtain ⟨report, returned, _⟩ := create_of_accepted owned (accepted_eq ran)
    exact ⟨lookupsSucceed owned ran, report, returned⟩

theorem create_never_throws_of_nested :
    ∃ graph, FileOwnershipGraph.create ⟨[⟨[1]⟩], [], [], [⟨[1]⟩]⟩ FileOwnershipGraph.nestedClaims =
        .ok graph ∧ graph.obstructions ≠ [] ∧ LookupsSucceed graph [⟨[1]⟩] ∧
      ∃ report, create graph [⟨[1]⟩] = .ok (.ok report) :=
  ⟨_, rfl, by decide, create_never_throws ⟨[⟨[1]⟩], [], [], [⟨[1]⟩]⟩
    FileOwnershipGraph.nestedClaims _ [⟨[1]⟩] rfl⟩

end ConflictResolutionReport

end FastModManager.Domain
