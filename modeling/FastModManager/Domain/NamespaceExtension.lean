import FastModManager.Domain.NamespaceLayers

namespace FastModManager.Domain

open Foundation NamespacePlan NamespaceLayers
open FileOwnershipGraph (claimsAt mem_claimsAt LiesUnder)
open ConflictResolutionReport (Wins)

namespace NamespaceExtension

variable {priorityOrder : List PackageId} {claims own : List PackagePathClaim}
  {compiled : CompiledNamespace} {path : GameRelativePath}

section Nodes

inductive NodeAt (claims : List PackagePathClaim) (path : GameRelativePath) : MountedNode → Prop
  | directory : DirectoryAt claims path → NodeAt claims path .directory
  | file {claim : PackagePathClaim} : claim ∈ claimsAt claims path → claim.kind ≠ .directory →
      NodeAt claims path (.file claim)

theorem mounted_nodeAt {node : MountedNode} (consistent : Consistent claims)
    (mounted : mountClaims claims path = some node) : NodeAt claims path node := by
  by_cases directory : DirectoryAt claims path
  · obtain rfl := consistent.eq_directory directory (List.Subset.refl _) mounted
    exact .directory directory
  · obtain ⟨clear, files⟩ := not_or.mp directory
    push Not at clear files
    rw [mountClaims_of_clear clear] at mounted
    obtain ⟨first, head, rfl⟩ := Option.map_eq_some_iff.mp mounted
    have firstAt := List.mem_of_mem_head? head
    rw [claimNode, if_neg (files first firstAt)]
    exact .file firstAt (files first firstAt)

theorem viewed_nodeAt {node : MountedNode} (consistent : Consistent claims)
    (represents : Represents priorityOrder claims compiled.entries)
    (shown : view compiled path = some node) : NodeAt claims path node := by
  by_cases directory : DirectoryAt claims path
  · rw [view_of_directoryAt represents consistent directory] at shown
    cases shown
    exact .directory directory
  · obtain ⟨clear, files⟩ := not_or.mp directory
    push Not at clear files
    cases claimed : claimsAt claims path with
    | nil => cases (view_of_unclaimed represents clear claimed).symm.trans shown
    | cons claim rest =>
      have first : claim ∈ claimsAt claims path := claimed ▸ List.mem_cons_self
      obtain ⟨winner, wins, won⟩ := view_of_file represents first (files claim first)
      cases won.symm.trans shown
      exact .file wins.mem (files winner wins.mem)

theorem NodeAt.isDirectory_eq {claims' : List PackagePathClaim} {node node' : MountedNode}
    (consistent : Consistent (claims ++ claims')) (left : NodeAt claims path node)
    (right : NodeAt claims' path node') : node.isDirectory = node'.isDirectory := by
  have leftAt {claim : PackagePathClaim} (claimed : claim ∈ claimsAt claims path) :
      claim ∈ claimsAt (claims ++ claims') path := by
    obtain ⟨member, same⟩ := mem_claimsAt.mp claimed
    exact mem_claimsAt.mpr ⟨List.mem_append_left _ member, same⟩
  have rightAt {claim : PackagePathClaim} (claimed : claim ∈ claimsAt claims' path) :
      claim ∈ claimsAt (claims ++ claims') path := by
    obtain ⟨member, same⟩ := mem_claimsAt.mp claimed
    exact mem_claimsAt.mpr ⟨List.mem_append_right _ member, same⟩
  cases left with
  | directory directory =>
    have both : DirectoryAt (claims ++ claims') path := by
      refine directory.imp ?_ ?_
      · exact fun ⟨claim, member, under⟩ => ⟨claim, List.mem_append_left _ member, under⟩
      · exact fun ⟨claim, claimed, directory⟩ => ⟨claim, leftAt claimed, directory⟩
    cases right with
    | directory => rfl
    | file claimed file =>
      exact absurd (consistent.directory_of_directoryAt both (rightAt claimed)) file
  | file claimed file =>
    cases right with
    | directory directory =>
      have both : DirectoryAt (claims ++ claims') path := by
        refine directory.imp ?_ ?_
        · exact fun ⟨claim, member, under⟩ => ⟨claim, List.mem_append_right _ member, under⟩
        · exact fun ⟨claim, claimed, directory⟩ => ⟨claim, rightAt claimed, directory⟩
      exact absurd (consistent.directory_of_directoryAt both (leftAt claimed)) file
    | file _ file' => rw [MountedNode.isDirectory_file file, MountedNode.isDirectory_file file']

end Nodes

section Top

variable {top : PackageId} (known : ∀ claim ∈ claims, claim.packageId ∈ priorityOrder)
  (fresh : top ∉ priorityOrder) (isOwn : ∀ claim ∈ own, claim.packageId = top)

theorem claimsAt_append :
    claimsAt (claims ++ own) path = claimsAt claims path ++ claimsAt own path :=
  List.filter_append _ _

section Winner

include known fresh isOwn

theorem filter_top : (claimsAt (claims ++ own) path).filter (fun claim => claim.packageId = top) =
    claimsAt own path := by
  have others : (claimsAt claims path).filter (fun claim => claim.packageId = top) = [] := by
    rw [List.filter_eq_nil_iff]
    intro claim claimed same
    have member := known claim (mem_claimsAt.mp claimed).1
    rw [of_decide_eq_true same] at member
    exact fresh member
  have mine :
      (claimsAt own path).filter (fun claim => claim.packageId = top) = claimsAt own path := by
    rw [List.filter_eq_self]
    exact fun claim claimed => decide_eq_true (isOwn claim (mem_claimsAt.mp claimed).1)
  rw [claimsAt_append, List.filter_append, others, mine, List.nil_append]

theorem idxOf_le_top {claim : PackagePathClaim} (member : claim ∈ claims ++ own) :
    (priorityOrder ++ [top]).idxOf claim.packageId ≤ (priorityOrder ++ [top]).idxOf top := by
  rw [List.idxOf_append_of_notMem fresh, List.idxOf_cons_self]
  rcases List.mem_append.mp member with claimIn | ownIn
  · rw [List.idxOf_append_of_mem (known claim claimIn)]
    exact (List.idxOf_lt_length_of_mem (known claim claimIn)).le
  · rw [isOwn claim ownIn, List.idxOf_append_of_notMem fresh, List.idxOf_cons_self]

theorem wins_on_top {winner : PackagePathClaim} :
    winner ∈ own → (Wins (priorityOrder ++ [top]) (claimsAt (claims ++ own) path) winner ↔
      claimsAt own path = [winner]) := by
  intro member
  constructor
  · intro wins
    rw [← filter_top known fresh isOwn, ← isOwn winner member]
    exact wins.sole
  · intro single
    refine ⟨fun claim claimed => ?_, ?_⟩
    · rw [isOwn winner member]
      exact idxOf_le_top known fresh isOwn (mem_claimsAt.mp claimed).1
    · rw [isOwn winner member, filter_top known fresh isOwn, single]

theorem winner_own {winner : PackagePathClaim}
    (wins : Wins (priorityOrder ++ [top]) (claimsAt (claims ++ own) path) winner)
    (claimed : claimsAt own path ≠ []) : winner ∈ own := by
  obtain ⟨member, _⟩ := mem_claimsAt.mp wins.mem
  refine (List.mem_append.mp member).resolve_left fun claimIn => ?_
  obtain ⟨claim, claimAt⟩ := List.exists_mem_of_ne_nil _ claimed
  have last := wins.last claim (claimsAt_append ▸ List.mem_append_right _ claimAt)
  have position := List.idxOf_lt_length_of_mem (known winner claimIn)
  rw [isOwn claim (mem_claimsAt.mp claimAt).1, List.idxOf_append_of_notMem fresh,
    List.idxOf_cons_self, List.idxOf_append_of_mem (known winner claimIn)] at last
  omega

theorem plannable_of_append
    (represents : Represents priorityOrder claims compiled.entries)
    (together : Plannable (priorityOrder ++ [top]) (claims ++ own)) :
    Plannable [top] own ∧ Layer.Agree MountedNode.isDirectory (mountClaims own) (view compiled) := by
  have consistent := Consistent.of_plannable together
  refine ⟨⟨?_, ?_⟩, ?_⟩
  · intro path several
    rcases together.resolvable path
        (by rw [claimsAt_append, List.length_append]; omega) with directories | ⟨_, winner, wins⟩
    · exact .inl fun claim claimed =>
        directories claim (claimsAt_append ▸ List.mem_append_right _ claimed)
    · have nonempty : claimsAt own path ≠ [] := by
        rintro none
        simp [none] at several
      have single := (wins_on_top known fresh isOwn
        (winner_own known fresh isOwn wins nonempty)).mp wins
      simp [single] at several
  · intro above aboveIn below belowIn
    exact together.unobstructed above (List.mem_append_right _ aboveIn) below
      (List.mem_append_right _ belowIn)
  · intro path node other mounted shown
    have left := mounted_nodeAt (consistent.subset (List.subset_append_right _ _)) mounted
    have right := viewed_nodeAt (consistent.subset (List.subset_append_left _ _)) represents shown
    exact (NodeAt.isDirectory_eq consistent right left).symm

end Winner

theorem consistent_append (consistent : Consistent claims) (consistentOwn : Consistent own)
    (represents : Represents priorityOrder claims compiled.entries)
    (agree : Layer.Agree MountedNode.isDirectory (mountClaims own) (view compiled)) :
    Consistent (claims ++ own) := by
  have clash {path : GameRelativePath} {claim : PackagePathClaim}
      (claimed : claim ∈ claimsAt claims path) (file : claim.kind ≠ .directory)
      (directory : mountClaims own path = some .directory) : False := by
    obtain ⟨winner, wins, shown⟩ := view_of_file represents claimed file
    have alike := agree path _ _ directory shown
    rw [MountedNode.isDirectory_file (consistent.files claimed file wins.mem)] at alike
    cases alike
  have clash' {path : GameRelativePath} {claim : PackagePathClaim}
      (claimed : claim ∈ claimsAt own path) (file : claim.kind ≠ .directory)
      (directory : view compiled path = some .directory) : False := by
    obtain ⟨first, head, mounted⟩ := consistentOwn.mount_file claimed file
    have alike := agree path _ _ mounted directory
    rw [MountedNode.isDirectory_file
      (consistentOwn.files claimed file (List.mem_of_mem_head? head))] at alike
    cases alike
  constructor
  · intro claim member other otherIn same directory
    by_contra file
    rcases List.mem_append.mp member with claimIn | ownIn
    · rcases List.mem_append.mp otherIn with otherClaim | otherOwn
      · exact file (consistent.alike claim claimIn other otherClaim same directory)
      · exact clash' (mem_claimsAt.mpr ⟨otherOwn, rfl⟩) file (view_of_directoryAt represents
          consistent (.inr ⟨claim, mem_claimsAt.mpr ⟨claimIn, same⟩, directory⟩))
    · rcases List.mem_append.mp otherIn with otherClaim | otherOwn
      · exact clash (mem_claimsAt.mpr ⟨otherClaim, rfl⟩) file
          (consistentOwn.mount_directory (mem_claimsAt.mpr ⟨ownIn, same⟩) directory)
      · exact file (consistentOwn.alike claim ownIn other otherOwn same directory)
  · intro above aboveIn below belowIn file under
    rcases List.mem_append.mp aboveIn with aboveClaim | aboveOwn
    · rcases List.mem_append.mp belowIn with belowClaim | belowOwn
      · exact consistent.unobstructed above aboveClaim below belowClaim file under
      · exact clash (mem_claimsAt.mpr ⟨aboveClaim, rfl⟩) file
          (mountClaims_of_under belowOwn under)
    · rcases List.mem_append.mp belowIn with belowClaim | belowOwn
      · exact clash' (mem_claimsAt.mpr ⟨aboveOwn, rfl⟩) file
          (view_of_directoryAt represents consistent (.inl ⟨below, belowClaim, under⟩))
      · exact consistentOwn.unobstructed above aboveOwn below belowOwn file under

include known

theorem wins_below_top {winner : PackagePathClaim} :
    Wins (priorityOrder ++ [top]) claims winner ↔ Wins priorityOrder claims winner := by
  have position {claim : PackagePathClaim} (member : claim ∈ claims) :
      (priorityOrder ++ [top]).idxOf claim.packageId = priorityOrder.idxOf claim.packageId :=
    List.idxOf_append_of_mem (known claim member)
  constructor
  · intro wins
    refine ⟨fun claim member => ?_, wins.sole⟩
    rw [← position member, ← position wins.mem]
    exact wins.last claim member
  · intro wins
    refine ⟨fun claim member => ?_, wins.sole⟩
    rw [position member, position wins.mem]
    exact wins.last claim member

theorem claimedEntry_below_top {entry : CompiledNamespaceEntry} :
    ClaimedEntry (priorityOrder ++ [top]) path claims entry ↔
      ClaimedEntry priorityOrder path claims entry := by
  constructor
  · intro claimed
    cases claimed with
    | directory nonempty directories => exact .directory nonempty directories
    | file files wins => exact .file files ((wins_below_top known).mp wins)
  · intro claimed
    cases claimed with
    | directory nonempty directories => exact .directory nonempty directories
    | file files wins => exact .file files ((wins_below_top known).mpr wins)

theorem plannedEntry_below_top {entry : CompiledNamespaceEntry}
    (untouched : mountClaims own entry.path = none) :
    PlannedEntry (priorityOrder ++ [top]) (claims ++ own) entry ↔
      PlannedEntry priorityOrder claims entry := by
  obtain ⟨clear, unclaimed⟩ := mountClaims_eq_none_iff.mp untouched
  have known' : ∀ claim ∈ claimsAt claims entry.path, claim.packageId ∈ priorityOrder :=
    fun claim member => known claim (mem_claimsAt.mp member).1
  have same : claimsAt (claims ++ own) entry.path = claimsAt claims entry.path := by
    rw [claimsAt_append, unclaimed, List.append_nil]
  constructor
  · intro planned
    cases planned with
    | claimed claimed =>
      obtain rfl := claimed.path_eq
      rw [same, claimedEntry_below_top known'] at claimed
      exact .claimed claimed
    | synthetic member ancestor none =>
      rcases List.mem_append.mp member with claimIn | ownIn
      · exact .synthetic claimIn ancestor (same ▸ none)
      · exact absurd ancestor.liesUnder (clear _ ownIn)
  · intro planned
    cases planned with
    | claimed claimed =>
      obtain rfl := claimed.path_eq
      rw [← claimedEntry_below_top known', ← same] at claimed
      exact .claimed claimed
    | synthetic member ancestor none =>
      exact .synthetic (List.mem_append_left _ member) ancestor (same.trans none)

include fresh isOwn

theorem plannable_append (plannable : Plannable priorityOrder claims)
    (represents : Represents priorityOrder claims compiled.entries)
    (plannableOwn : Plannable [top] own)
    (agree : Layer.Agree MountedNode.isDirectory (mountClaims own) (view compiled)) :
    Plannable (priorityOrder ++ [top]) (claims ++ own) := by
  have consistent := consistent_append (.of_plannable plannable) (.of_plannable plannableOwn)
    represents agree
  refine ⟨fun path several => ?_, consistent.unobstructed⟩
  cases claimed : claimsAt own path with
  | nil =>
    rw [claimsAt_append, claimed, List.append_nil] at several ⊢
    refine (plannable.resolvable path several).imp id ?_
    refine fun ⟨files, winner, wins⟩ => ⟨files, winner, ?_⟩
    exact (wins_below_top fun claim member => known claim (mem_claimsAt.mp member).1).mpr wins
  | cons claim rest =>
    have ownAt : claim ∈ claimsAt own path := claimed ▸ List.mem_cons_self
    obtain ⟨member, same⟩ := mem_claimsAt.mp ownAt
    have togetherAt : claim ∈ claimsAt (claims ++ own) path :=
      mem_claimsAt.mpr ⟨List.mem_append_right _ member, same⟩
    by_cases directory : claim.kind = .directory
    · exact .inl fun other otherAt =>
        consistent.directory_of_directoryAt (.inr ⟨claim, togetherAt, directory⟩) otherAt
    · have nonempty : claimsAt own path ≠ [] := List.ne_nil_of_mem ownAt
      rcases plannableOwn.resolvable_of_claimed nonempty with directories | ⟨_, winner, wins⟩
      · exact absurd (directories claim ownAt) directory
      · refine .inr ⟨fun other otherAt otherDirectory => ?_, winner, ?_⟩
        · exact directory (consistent.directory_of_directoryAt
            (.inr ⟨other, otherAt, otherDirectory⟩) togetherAt)
        · have winnerIn := (mem_claimsAt.mp wins.mem).1
          have single : claimsAt own path = [winner] := by
            rw [← wins.sole, eq_comm, List.filter_eq_self]
            intro other otherAt
            rw [isOwn other (mem_claimsAt.mp otherAt).1, isOwn winner winnerIn]
            exact decide_eq_true rfl
          exact (wins_on_top known fresh isOwn winnerIn).mpr single

end Top

section Layers

variable {top : PackageId} (known : ∀ claim ∈ claims, claim.packageId ∈ priorityOrder)
  (fresh : top ∉ priorityOrder) (isOwn : ∀ claim ∈ own, claim.packageId = top)

include isOwn fresh

theorem layerOf_append_of_mem {package : PackageId} (member : package ∈ priorityOrder) :
    layerOf (claims ++ own) package = layerOf claims package := by
  have none : own.filter (fun claim => claim.packageId = package) = [] := by
    rw [List.filter_eq_nil_iff]
    intro claim claimIn same
    rw [← of_decide_eq_true same, isOwn claim claimIn] at member
    exact fresh member
  rw [layerOf, List.filter_append, none, List.append_nil]
  rfl

include known

theorem layerOf_append_top : layerOf (claims ++ own) top = mountClaims own := by
  have none : claims.filter (fun claim => claim.packageId = top) = [] := by
    rw [List.filter_eq_nil_iff]
    intro claim claimIn same
    exact fresh (of_decide_eq_true same ▸ known claim claimIn)
  have all : own.filter (fun claim => claim.packageId = top) = own := by
    rw [List.filter_eq_self]
    exact fun claim claimIn => decide_eq_true (isOwn claim claimIn)
  rw [layerOf, List.filter_append, none, all, List.nil_append]

theorem stack_layers_append :
    Layer.stack ((priorityOrder ++ [top]).map (layerOf (claims ++ own))) =
      (mountClaims own).atop (Layer.stack (priorityOrder.map (layerOf claims))) := by
  rw [List.map_append, Layer.stack_append, List.map_singleton, Layer.stack_singleton,
    layerOf_append_top known fresh isOwn]
  congr 2
  exact List.map_congr_left fun package member => layerOf_append_of_mem fresh isOwn member

end Layers

end NamespaceExtension

open NamespaceExtension PlanningRun

theorem PlanningRun.compiles_iff (run : PlanningRun) :
    (∃ result, NamespaceCompilationResult.compile run.report = .ok result) ↔
      Plannable run.priorityOrder run.claims := by
  constructor
  · rintro ⟨result, compiled⟩
    exact (run.realizes_of_compile compiled).1
  · intro plannable
    obtain ⟨result, compiled, _⟩ := NamespaceCompilationResult.compile_of_plannable run.owned
      run.reported run.known plannable
    exact ⟨result, compiled⟩

/-- A further package of the highest priority can be planned exactly if its own claims can, and no
file of it meets a directory of the namespace, or the other way round; the new namespace is the old
one with the package's layer atop, and has the very entries of the old one where the package has
nothing. -/
theorem compile_on_top_iff (run run' : PlanningRun) (result : NamespaceCompilationResult)
    (top : PackageId) (own : List PackagePathClaim)
    (compiled : NamespaceCompilationResult.compile run.report = .ok result)
    (order : run'.priorityOrder = run.priorityOrder ++ [top])
    (claims : run'.claims.Perm (run.claims ++ own))
    (isOwn : ∀ claim ∈ own, claim.packageId = top) :
    ((∃ result', NamespaceCompilationResult.compile run'.report = .ok result') ↔
      Plannable [top] own ∧
        Layer.Agree MountedNode.isDirectory (mountClaims own) (view result.compiledNamespace)) ∧
    ∀ result', NamespaceCompilationResult.compile run'.report = .ok result' →
      view result'.compiledNamespace = (mountClaims own).atop (view result.compiledNamespace) ∧
      ∀ entry, mountClaims own entry.path = none →
        (entry ∈ result'.compiledNamespace.entries ↔ entry ∈ result.compiledNamespace.entries) := by
  obtain ⟨plannable, realizes⟩ := run.realizes_of_compile compiled
  have represents := realizes.represents plannable
  have nodup := run'.nodup
  rw [order, List.nodup_append] at nodup
  have fresh : top ∉ run.priorityOrder := fun member =>
    nodup.2.2 top member top (List.mem_singleton_self top) rfl
  have together : Plannable run'.priorityOrder run'.claims ↔
      Plannable (run.priorityOrder ++ [top]) (run.claims ++ own) := by
    rw [order]
    exact ⟨.perm claims, .perm claims.symm⟩
  constructor
  · rw [run'.compiles_iff, together]
    exact ⟨plannable_of_append run.known fresh isOwn represents,
      fun ⟨plannableOwn, agree⟩ =>
        plannable_append run.known fresh isOwn plannable represents plannableOwn agree⟩
  · intro result' compiled'
    obtain ⟨plannable', realizes'⟩ := run'.realizes_of_compile compiled'
    have realized := realizes'.perm claims
    have represents' := realized.represents (plannable'.perm claims)
    have known' : ∀ claim ∈ run.claims ++ own, claim.packageId ∈ run'.priorityOrder :=
      fun claim member => run'.known claim (claims.symm.subset member)
    constructor
    · rw [view_eq_stack run'.nodup known' (.of_plannable (plannable'.perm claims)) represents',
        order, stack_layers_append run.known fresh isOwn,
        view_eq_stack run.nodup run.known (.of_plannable plannable) represents]
    · intro entry untouched
      rw [realized.mem_iff, realizes.mem_iff, order]
      exact plannedEntry_below_top run.known untouched

section Example

def topClaim : PackagePathClaim := ⟨⟨[3]⟩, ⟨[99]⟩, ⟨[97, 47, 98]⟩, .symbolicLink⟩

def toppedClaims : List PackagePathClaim := contestedClaims ++ [topClaim]

def topped : PlanningRun where
  enabledPackages := [⟨[1]⟩, ⟨[2]⟩, ⟨[3]⟩]
  dependencies := []
  orderingConstraints := []
  claims := toppedClaims
  priorityOrder := [⟨[1]⟩, ⟨[2]⟩, ⟨[3]⟩]
  packageGraph := ⟨[⟨[1]⟩, ⟨[2]⟩, ⟨[3]⟩], [], [], [⟨[1]⟩, ⟨[2]⟩, ⟨[3]⟩]⟩
  ownershipGraph :=
    { packageOrder := [⟨[1]⟩, ⟨[2]⟩, ⟨[3]⟩]
      claims := toppedClaims
      nodes := [⟨⟨[97, 47, 98]⟩, toppedClaims⟩]
      exactCollisionPaths := [⟨[97, 47, 98]⟩]
      obstructions := [] }
  report :=
    { policy := ⟨[⟨[1]⟩, ⟨[2]⟩, ⟨[3]⟩]⟩
      decisions := [⟨⟨[97, 47, 98]⟩, .priorityWinner, toppedClaims, some topClaim⟩]
      diagnostics :=
        [⟨.exactPathWinnerSelected, .warning, ⟨[97, 47, 98]⟩, none, toppedClaims, some topClaim,
          .reviewPackagePriority⟩]
      hasBlockingConflicts := false }
  packageGraph_created := by decide
  ownershipGraph_created := by decide
  report_created := by decide

theorem compile_on_top_iff_of_contested :
    ((∃ result', NamespaceCompilationResult.compile topped.report = .ok result') ↔
      Plannable [⟨[3]⟩] [topClaim] ∧
        Layer.Agree MountedNode.isDirectory (mountClaims [topClaim]) (view ⟨contestedEntries⟩)) ∧
    ∀ result', NamespaceCompilationResult.compile topped.report = .ok result' →
      view result'.compiledNamespace = (mountClaims [topClaim]).atop (view ⟨contestedEntries⟩) ∧
      ∀ entry, mountClaims [topClaim] entry.path = none →
        (entry ∈ result'.compiledNamespace.entries ↔ entry ∈ contestedEntries) :=
  compile_on_top_iff contested topped contestedResult ⟨[3]⟩ [topClaim] (by decide) rfl (.refl _)
    (by decide)

end Example

section Flatten

def entryClaim (owner : PackageId) (entry : CompiledNamespaceEntry) : PackagePathClaim :=
  ⟨owner, ⟨entry.path.nativeBytes⟩, entry.path, entry.kind⟩

def flatten (owner : PackageId) (compiled : CompiledNamespace) : List PackagePathClaim :=
  compiled.entries.map (entryClaim owner)

def reclaimed (owner : PackageId) (entry : CompiledNamespaceEntry) : CompiledNamespaceEntry where
  path := entry.path
  kind := entry.kind
  origin := .singleClaim
  selectedClaim := if entry.kind = .directory then none else some (entryClaim owner entry)
  sourceReference := none

variable {owner : PackageId} {compiled : CompiledNamespace}

theorem mem_flatten {claim : PackagePathClaim} : claim ∈ flatten owner compiled ↔
    ∃ entry ∈ compiled.entries, claim = entryClaim owner entry := by
  simp only [flatten, List.mem_map, eq_comm]

variable (tree : MountableTree compiled.entries)

include tree

theorem claimsAt_flatten {entry : CompiledNamespaceEntry} (member : entry ∈ compiled.entries) :
    claimsAt (flatten owner compiled) entry.path = [entryClaim owner entry] := by
  have single : compiled.entries.filter (fun other => other.path = entry.path) = [entry] :=
    filter_eq_singleton_of_nodup_map tree.nodup member
  rw [claimsAt, flatten, List.filter_map]
  exact congrArg (List.map _) single

theorem plannable_flatten : Plannable [owner] (flatten owner compiled) where
  resolvable path several := by
    obtain ⟨claim, claimed⟩ :=
      List.exists_mem_of_length_pos (Nat.lt_of_lt_of_le Nat.zero_lt_two several)
    obtain ⟨member, same⟩ := mem_claimsAt.mp claimed
    obtain ⟨entry, entryIn, rfl⟩ := mem_flatten.mp member
    obtain rfl : entry.path = path := same
    rw [claimsAt_flatten tree entryIn] at several
    exact absurd several (by simp)
  unobstructed above aboveIn below belowIn file under := by
    obtain ⟨upper, upperIn, rfl⟩ := mem_flatten.mp aboveIn
    obtain ⟨lower, lowerIn, rfl⟩ := mem_flatten.mp belowIn
    by_cases root : upper.path.nativeBytes = []
    · refine file (tree.root upper upperIn root lower lowerIn ?_)
      rintro rfl
      exact under.ne rfl
    · have inside := under.resolve_left fun h => root h.1
      obtain ⟨parent, parentIn, same, directory⟩ :=
        tree.exists_parent lowerIn (isAncestor_iff.mpr ⟨root, inside⟩)
      obtain rfl := List.inj_on_of_nodup_map tree.nodup parentIn upperIn same
      exact file directory

theorem realizes_flatten :
    Realizes [owner] (flatten owner compiled) ⟨compiled.entries.map (reclaimed owner)⟩ where
  increasing := List.pairwise_map.mpr tree.increasing
  mem_iff entry := by
    have claimedEntry {original : CompiledNamespaceEntry} (member : original ∈ compiled.entries) :
        ClaimedEntry [owner] original.path (claimsAt (flatten owner compiled) original.path)
          (reclaimed owner original) := by
      rw [claimsAt_flatten tree member]
      by_cases directory : original.kind = .directory
      · rw [reclaimed, directory]
        exact .directory (List.cons_ne_nil _ _) (List.forall_mem_singleton.mpr directory)
      · rw [reclaimed, if_neg directory]
        exact .file (List.forall_mem_singleton.mpr directory) (wins_singleton _)
    constructor
    · intro member
      obtain ⟨original, originalIn, rfl⟩ := List.mem_map.mp member
      exact .claimed (claimedEntry originalIn)
    · intro planned
      cases planned with
      | @claimed path _ claimed =>
        obtain ⟨claim, claimAt⟩ := List.exists_mem_of_ne_nil _ claimed.claims_ne_nil
        obtain ⟨member, same⟩ := mem_claimsAt.mp claimAt
        obtain ⟨original, originalIn, rfl⟩ := mem_flatten.mp member
        obtain rfl : original.path = path := same
        refine List.mem_map.mpr ⟨original, originalIn, ?_⟩
        refine ClaimedEntry.unique ?_ (claimedEntry originalIn) claimed
        rw [claimsAt_flatten tree originalIn]
        simp [entryClaim]
      | synthetic member ancestor unclaimed =>
        obtain ⟨original, originalIn, rfl⟩ := mem_flatten.mp member
        obtain ⟨parent, parentIn, rfl, _⟩ := tree.exists_parent originalIn ancestor
        rw [claimsAt_flatten tree parentIn] at unclaimed
        cases unclaimed

end Flatten

theorem PlanningRun.exists_unrelated {enabledPackages : List PackageId}
    {claims : List PackagePathClaim} (nodup : enabledPackages.Nodup)
    (known : ∀ claim ∈ claims, claim.packageId ∈ enabledPackages) :
    ∃ run : PlanningRun, run.enabledPackages = enabledPackages ∧ run.dependencies = [] ∧
      run.orderingConstraints = [] ∧ run.claims = claims ∧ run.priorityOrder = enabledPackages := by
  have valid : PackageDependencyGraph.ValidDeclarations enabledPackages [] [] := ⟨nodup, nofun, nofun⟩
  have acyclic : Acyclic (PackageDependencyGraph.DeclaredEdge [] []) := by
    intro package cycle
    obtain ⟨_, edge, _⟩ := Relation.TransGen.head'_iff.mp cycle
    simp [PackageDependencyGraph.DeclaredEdge] at edge
  obtain ⟨resolvedOrder, packageGraph_created, least⟩ := valid.create_of_acyclic acyclic
  have enabled : ∀ claim ∈ claims, claim.packageId ∈ resolvedOrder := fun claim member =>
    least.1.perm.symm.subset (known claim member)
  obtain ⟨ownershipGraph, ownershipGraph_created, owned⟩ :=
    @FileOwnershipGraph.create_of_enabled ⟨enabledPackages, [], [], resolvedOrder⟩ claims enabled
  have accepted : ConflictResolutionPolicy.create ownershipGraph enabledPackages =
      .ok ⟨enabledPackages⟩ := by
    refine ConflictResolutionPolicy.create_eq_ok_iff.mpr ⟨rfl, nodup, fun package => ?_⟩
    rw [owned.packageOrder, least.1.perm.mem_iff]
  obtain ⟨report, report_created, _⟩ := ConflictResolutionReport.create_of_accepted owned accepted
  exact ⟨{ enabledPackages, dependencies := [], orderingConstraints := [], claims,
           priorityOrder := enabledPackages,
           packageGraph := ⟨enabledPackages, [], [], resolvedOrder⟩, ownershipGraph, report,
           packageGraph_created, ownershipGraph_created, report_created },
    rfl, rfl, rfl, rfl, rfl⟩

/-- A single package that claims what a namespace contains is planned without conflict, to the same
paths of the same kinds. -/
theorem compile_flattened (run : PlanningRun) (result : NamespaceCompilationResult)
    (owner : PackageId) (compiled : NamespaceCompilationResult.compile run.report = .ok result) :
    ∃ run' : PlanningRun, run'.enabledPackages = [owner] ∧ run'.dependencies = [] ∧
      run'.orderingConstraints = [] ∧ run'.claims = flatten owner result.compiledNamespace ∧
      run'.priorityOrder = [owner] ∧
      ∃ result', NamespaceCompilationResult.compile run'.report = .ok result' ∧
        result'.compiledNamespace.entries =
          result.compiledNamespace.entries.map (reclaimed owner) := by
  obtain ⟨plannable, realizes⟩ := run.realizes_of_compile compiled
  have tree := realizes.mountableTree plannable
  have known : ∀ claim ∈ flatten owner result.compiledNamespace, claim.packageId ∈ [owner] := by
    intro claim member
    obtain ⟨entry, _, rfl⟩ := mem_flatten.mp member
    exact List.mem_singleton_self owner
  obtain ⟨run', enabled, dependencies, constraints, claims, order⟩ :=
    PlanningRun.exists_unrelated (List.nodup_singleton owner) known
  have plannable' : Plannable run'.priorityOrder run'.claims := by
    rw [order, claims]
    exact plannable_flatten tree
  obtain ⟨result', compiled'⟩ := run'.compiles_iff.mpr plannable'
  have realizes' := (run'.realizes_of_compile compiled').2
  rw [order, claims] at realizes'
  have same := realizes'.unique (.refl _) (realizes_flatten tree)
  exact ⟨run', enabled, dependencies, constraints, claims, order, result', compiled',
    congrArg CompiledNamespace.entries same⟩

theorem compile_flattened_of_contested :
    ∃ run' : PlanningRun, run'.enabledPackages = [⟨[9]⟩] ∧ run'.dependencies = [] ∧
      run'.orderingConstraints = [] ∧ run'.claims = flatten ⟨[9]⟩ ⟨contestedEntries⟩ ∧
      run'.priorityOrder = [⟨[9]⟩] ∧
      ∃ result', NamespaceCompilationResult.compile run'.report = .ok result' ∧
        result'.compiledNamespace.entries = contestedEntries.map (reclaimed ⟨[9]⟩) :=
  compile_flattened contested contestedResult ⟨[9]⟩ (by decide)

end FastModManager.Domain
