import FastModManager.Domain.NamespacePlanning
import FastModManager.Foundation.Layers

/-! A compiled namespace as a union mount: each package is a layer of its own claims, and the
namespace shows what the layers show when they are stacked in the priority order. -/

namespace FastModManager.Domain

open Foundation NamespacePlan
open FileOwnershipGraph (claimsAt mem_claimsAt LiesUnder)
open ConflictResolutionReport (Wins)

structure MountedNode where
  kind : PackageEntryKind
  claim : Option PackagePathClaim
  deriving DecidableEq, Repr

namespace MountedNode

def directory : MountedNode := ⟨.directory, none⟩

def file (claim : PackagePathClaim) : MountedNode := ⟨claim.kind, some claim⟩

def isDirectory (node : MountedNode) : Bool := node.kind = .directory

theorem isDirectory_file {claim : PackagePathClaim} (other : claim.kind ≠ .directory) :
    (file claim).isDirectory = false :=
  decide_eq_false other

end MountedNode

namespace NamespaceLayers

instance (ancestor descendant : GameRelativePath) : Decidable (LiesUnder ancestor descendant) :=
  inferInstanceAs (Decidable (_ ∨ _))

/-- Items mounted together; a path with anything under it is a directory. -/
def mount (items : List (GameRelativePath × MountedNode)) : Layer GameRelativePath MountedNode :=
  fun path =>
    if ∃ item ∈ items, LiesUnder path item.1 then some .directory
    else (items.find? fun item => item.1 = path).map Prod.snd

def claimNode (claim : PackagePathClaim) : MountedNode :=
  if claim.kind = .directory then .directory else .file claim

def mountClaims (claims : List PackagePathClaim) : Layer GameRelativePath MountedNode :=
  mount (claims.map fun claim => (claim.gameRelativePath, claimNode claim))

def layerOf (claims : List PackagePathClaim) (package : PackageId) :
    Layer GameRelativePath MountedNode :=
  mountClaims (claims.filter fun claim => claim.packageId = package)

def entryNode (entry : CompiledNamespaceEntry) : MountedNode :=
  ⟨entry.kind, entry.selectedClaim⟩

/-- The entry listed at a path, with nothing implied but the root, which is listed only where it
is claimed. -/
def view (compiled : CompiledNamespace) : Layer GameRelativePath MountedNode := fun path =>
  ((compiled.entries.find? fun entry => entry.path = path).map entryNode).or
    (if path.nativeBytes = [] ∧ compiled.entries ≠ [] then some .directory else none)

section Mount

variable {claims claims' : List PackagePathClaim} {path : GameRelativePath}
  {claim : PackagePathClaim}

theorem mountClaims_of_under (member : claim ∈ claims)
    (under : LiesUnder path claim.gameRelativePath) :
    mountClaims claims path = some .directory := by
  apply if_pos
  exact ⟨_, List.mem_map_of_mem member, under⟩

theorem mountClaims_of_clear (clear : ∀ claim ∈ claims, ¬ LiesUnder path claim.gameRelativePath) :
    mountClaims claims path = (claimsAt claims path).head?.map claimNode := by
  have none : ¬ ∃ item ∈ claims.map fun claim => (claim.gameRelativePath, claimNode claim),
      LiesUnder path item.1 := by
    rintro ⟨_, member, under⟩
    obtain ⟨claim, claimIn, rfl⟩ := List.mem_map.mp member
    exact clear claim claimIn under
  rw [mountClaims, mount, if_neg none, List.find?_map, claimsAt, List.head?_filter, Option.map_map]
  rfl

theorem mountClaims_eq_none_iff : mountClaims claims path = none ↔
    (∀ claim ∈ claims, ¬ LiesUnder path claim.gameRelativePath) ∧ claimsAt claims path = [] := by
  by_cases clear : ∀ claim ∈ claims, ¬ LiesUnder path claim.gameRelativePath
  · rw [mountClaims_of_clear clear]
    simpa using fun _ => clear
  · push Not at clear
    obtain ⟨claim, member, under⟩ := clear
    rw [mountClaims_of_under member under]
    exact iff_of_false nofun fun h => h.1 claim member under

structure Consistent (claims : List PackagePathClaim) : Prop where
  alike : ∀ claim ∈ claims, ∀ other ∈ claims, claim.gameRelativePath = other.gameRelativePath →
    claim.kind = .directory → other.kind = .directory
  unobstructed : ∀ above ∈ claims, ∀ below ∈ claims, above.kind ≠ .directory →
    ¬ LiesUnder above.gameRelativePath below.gameRelativePath

theorem Consistent.subset (consistent : Consistent claims) (subset : claims' ⊆ claims) :
    Consistent claims' where
  alike claim member other otherIn :=
    consistent.alike claim (subset member) other (subset otherIn)
  unobstructed above aboveIn below belowIn :=
    consistent.unobstructed above (subset aboveIn) below (subset belowIn)

theorem Consistent.of_plannable {priorityOrder : List PackageId}
    (plannable : Plannable priorityOrder claims) : Consistent claims where
  alike claim member other otherIn same directory := by
    have claimed := mem_claimsAt.mpr ⟨member, same⟩
    rcases plannable.resolvable_of_claimed (List.ne_nil_of_mem claimed) with directories | ⟨files, _⟩
    · exact directories other (mem_claimsAt.mpr ⟨otherIn, rfl⟩)
    · exact absurd directory (files claim claimed)
  unobstructed := plannable.unobstructed

variable (consistent : Consistent claims) (claimed : claim ∈ claimsAt claims path)

include consistent claimed

theorem Consistent.files (file : claim.kind ≠ .directory) {other : PackagePathClaim}
    (otherAt : other ∈ claimsAt claims path) : other.kind ≠ .directory := by
  obtain ⟨member, same⟩ := mem_claimsAt.mp claimed
  obtain ⟨otherIn, otherSame⟩ := mem_claimsAt.mp otherAt
  exact fun directory =>
    file (consistent.alike other otherIn claim member (otherSame.trans same.symm) directory)

theorem Consistent.mount_directory (directory : claim.kind = .directory) :
    mountClaims claims path = some .directory := by
  by_cases clear : ∀ claim ∈ claims, ¬ LiesUnder path claim.gameRelativePath
  · rw [mountClaims_of_clear clear]
    obtain ⟨first, rest, split⟩ := List.exists_cons_of_ne_nil (List.ne_nil_of_mem claimed)
    obtain ⟨member, same⟩ := mem_claimsAt.mp claimed
    have atPath : first ∈ claimsAt claims path := split ▸ List.mem_cons_self
    obtain ⟨firstIn, firstAt⟩ := mem_claimsAt.mp atPath
    have alike := consistent.alike claim member first firstIn (same.trans firstAt.symm) directory
    rw [split, List.head?_cons, Option.map_some, claimNode, if_pos alike]
  · push Not at clear
    obtain ⟨below, member, under⟩ := clear
    exact mountClaims_of_under member under

theorem Consistent.mount_file (file : claim.kind ≠ .directory) :
    ∃ first, (claimsAt claims path).head? = some first ∧
      mountClaims claims path = some (.file first) := by
  obtain ⟨member, same⟩ := mem_claimsAt.mp claimed
  have clear : ∀ below ∈ claims, ¬ LiesUnder path below.gameRelativePath := by
    intro below belowIn under
    exact consistent.unobstructed claim member below belowIn file (same ▸ under)
  obtain ⟨first, rest, split⟩ := List.exists_cons_of_ne_nil (List.ne_nil_of_mem claimed)
  have alike := consistent.files claimed file (split ▸ List.mem_cons_self : first ∈ _)
  refine ⟨first, by rw [split, List.head?_cons], ?_⟩
  rw [mountClaims_of_clear clear, split, List.head?_cons, Option.map_some, claimNode, if_neg alike]

end Mount

section View

variable {priorityOrder : List PackageId} {claims claims' : List PackagePathClaim}
  {compiled : CompiledNamespace} {path : GameRelativePath}

def DirectoryAt (claims : List PackagePathClaim) (path : GameRelativePath) : Prop :=
  (∃ claim ∈ claims, LiesUnder path claim.gameRelativePath) ∨
    ∃ claim ∈ claimsAt claims path, claim.kind = .directory

theorem Consistent.directory_of_directoryAt (consistent : Consistent claims)
    (directory : DirectoryAt claims path) {claim : PackagePathClaim}
    (claimed : claim ∈ claimsAt claims path) : claim.kind = .directory := by
  obtain ⟨member, same⟩ := mem_claimsAt.mp claimed
  rcases directory with ⟨below, belowIn, under⟩ | ⟨other, otherAt, directory⟩
  · by_contra file
    exact consistent.unobstructed claim member below belowIn file (same ▸ under)
  · obtain ⟨otherIn, otherSame⟩ := mem_claimsAt.mp otherAt
    exact consistent.alike other otherIn claim member (otherSame.trans same.symm) directory

theorem Consistent.eq_directory {node : MountedNode} (consistent : Consistent claims)
    (directory : DirectoryAt claims path) (subset : claims' ⊆ claims)
    (found : mountClaims claims' path = some node) : node = .directory := by
  by_cases clear : ∀ claim ∈ claims', ¬ LiesUnder path claim.gameRelativePath
  · rw [mountClaims_of_clear clear] at found
    obtain ⟨first, head, rfl⟩ := Option.map_eq_some_iff.mp found
    obtain ⟨member, same⟩ := mem_claimsAt.mp (List.mem_of_mem_head? head)
    exact if_pos (consistent.directory_of_directoryAt directory
      (mem_claimsAt.mpr ⟨subset member, same⟩))
  · push Not at clear
    obtain ⟨claim, member, under⟩ := clear
    rw [mountClaims_of_under member under] at found
    exact (Option.some.inj found).symm

theorem ne_of_unclaimed (unclaimed : claimsAt claims path = []) {claim : PackagePathClaim}
    (member : claim ∈ claims) : claim.gameRelativePath ≠ path := by
  rintro rfl
  exact List.ne_nil_of_mem (mem_claimsAt.mpr ⟨member, rfl⟩) unclaimed

theorem nativeBytes_ne_nil_of_unclaimed
    (clear : ∀ claim ∈ claims, ¬ LiesUnder path claim.gameRelativePath)
    (unclaimed : claimsAt claims path = []) {claim : PackagePathClaim} (member : claim ∈ claims) :
    path.nativeBytes ≠ [] := by
  intro root
  refine clear claim member (.inl ⟨root, fun empty => ?_⟩)
  exact ne_of_unclaimed unclaimed member (GameRelativePath.ext (empty.trans root.symm))

theorem view_of_unlisted (unlisted : ¬ ∃ entry ∈ compiled.entries, entry.path = path) :
    view compiled path =
      if path.nativeBytes = [] ∧ compiled.entries ≠ [] then some .directory else none := by
  have absent : (compiled.entries.find? fun entry => entry.path = path) = none := by
    rw [List.find?_eq_none]
    exact fun entry member same => unlisted ⟨entry, member, of_decide_eq_true same⟩
  rw [view, absent, Option.map_none, Option.none_or]

variable (represents : Represents priorityOrder claims compiled.entries)

include represents

theorem view_of_entry {entry : CompiledNamespaceEntry} (member : entry ∈ compiled.entries) :
    view compiled entry.path = some (entryNode entry) := by
  have single : compiled.entries.filter (fun other => other.path = entry.path) = [entry] :=
    filter_eq_singleton_of_nodup_map represents.nodup member
  rw [view, ← List.head?_filter, single]
  rfl

theorem entryNode_of_directories {entry : CompiledNamespaceEntry}
    (member : entry ∈ compiled.entries)
    (directories : ∀ claim ∈ claimsAt claims entry.path, claim.kind = .directory) :
    entryNode entry = .directory := by
  obtain ⟨kind, unselected⟩ : entry.kind = .directory ∧ entry.selectedClaim = none := by
    by_cases claimed : claimsAt claims entry.path = []
    · exact represents.synthetic entry member ((represents.unclaimed_iff entry member).mp claimed)
    · exact represents.directory entry member claimed directories
  rw [entryNode, kind, unselected]
  rfl

theorem listed_of_directoryAt (directory : DirectoryAt claims path) :
    (∃ entry ∈ compiled.entries, entry.path = path) ∨
      path.nativeBytes = [] ∧ compiled.entries ≠ [] := by
  rcases directory with ⟨below, member, under⟩ | ⟨claim, claimed, _⟩
  · by_cases root : path.nativeBytes = []
    · obtain ⟨entry, entryIn, _⟩ := (represents.path_iff _).mpr (.inl ⟨below, member, rfl⟩)
      exact .inr ⟨root, List.ne_nil_of_mem entryIn⟩
    · have inside := under.resolve_left fun h => root h.1
      exact .inl ((represents.path_iff path).mpr
        (.inr ⟨below, member, isAncestor_iff.mpr ⟨root, inside⟩⟩))
  · exact .inl ((represents.path_iff path).mpr (.inl ⟨claim, mem_claimsAt.mp claimed⟩))

theorem view_of_directoryAt (consistent : Consistent claims) (directory : DirectoryAt claims path) :
    view compiled path = some .directory := by
  by_cases listed : ∃ entry ∈ compiled.entries, entry.path = path
  · obtain ⟨entry, entryIn, rfl⟩ := listed
    rw [view_of_entry represents entryIn, entryNode_of_directories represents entryIn]
    exact fun claim claimed => consistent.directory_of_directoryAt directory claimed
  · -- only the root is a directory that need not be listed
    have root := (listed_of_directoryAt represents directory).resolve_left listed
    rw [view_of_unlisted listed, if_pos root]

theorem view_of_unclaimed (clear : ∀ claim ∈ claims, ¬ LiesUnder path claim.gameRelativePath)
    (unclaimed : claimsAt claims path = []) : view compiled path = none := by
  have unlisted : ¬ ∃ entry ∈ compiled.entries, entry.path = path := by
    rw [represents.path_iff]
    rintro (⟨claim, member, same⟩ | ⟨claim, member, ancestor⟩)
    · exact ne_of_unclaimed unclaimed member same
    · exact clear claim member ancestor.liesUnder
  rw [view_of_unlisted unlisted, if_neg]
  rintro ⟨root, nonempty⟩
  obtain ⟨entry, entryIn⟩ := List.exists_mem_of_ne_nil _ nonempty
  rcases (represents.path_iff entry.path).mp ⟨entry, entryIn, rfl⟩ with
    ⟨claim, member, _⟩ | ⟨claim, member, _⟩
  · exact nativeBytes_ne_nil_of_unclaimed clear unclaimed member root
  · exact nativeBytes_ne_nil_of_unclaimed clear unclaimed member root

theorem view_of_file {claim : PackagePathClaim} (claimed : claim ∈ claimsAt claims path)
    (file : claim.kind ≠ .directory) :
    ∃ winner, Wins priorityOrder (claimsAt claims path) winner ∧
      view compiled path = some (.file winner) := by
  obtain ⟨entry, entryIn, rfl⟩ :=
    (represents.path_iff path).mpr (.inl ⟨claim, mem_claimsAt.mp claimed⟩)
  obtain ⟨winner, wins, selected, kind⟩ := represents.file entry entryIn ⟨claim, claimed, file⟩
  refine ⟨winner, wins, ?_⟩
  rw [view_of_entry represents entryIn, entryNode, selected, kind]
  rfl

end View

section Stack

variable {claims : List PackagePathClaim} {path : GameRelativePath} {package : PackageId}

theorem claimsAt_of_package : claimsAt (claims.filter fun claim => claim.packageId = package) path =
    (claimsAt claims path).filter fun claim => claim.packageId = package :=
  List.filter_comm _ _ _

theorem subset_of_package : claims.filter (fun claim => claim.packageId = package) ⊆ claims :=
  List.filter_sublist.subset

theorem layerOf_winner {priorityOrder : List PackageId} {winner : PackagePathClaim}
    (consistent : Consistent claims) (wins : Wins priorityOrder (claimsAt claims path) winner)
    (file : winner.kind ≠ .directory) :
    layerOf claims winner.packageId path = some (.file winner) := by
  have own : claimsAt (claims.filter fun claim => claim.packageId = winner.packageId) path =
      [winner] := claimsAt_of_package.trans wins.sole
  have claimed : winner ∈ claimsAt (claims.filter fun claim =>
      claim.packageId = winner.packageId) path := by
    rw [own]
    exact List.mem_singleton_self winner
  obtain ⟨first, head, mounted⟩ := (consistent.subset subset_of_package).mount_file claimed file
  rw [own] at head
  cases head
  exact mounted

theorem layerOf_after_winner {before after : List PackageId} {winner : PackagePathClaim}
    (nodup : (before ++ winner.packageId :: after).Nodup)
    (wins : Wins (before ++ winner.packageId :: after) (claimsAt claims path) winner)
    (clear : ∀ claim ∈ claims, ¬ LiesUnder path claim.gameRelativePath) (later : package ∈ after) :
    layerOf claims package path = none := by
  refine mountClaims_eq_none_iff.mpr
    ⟨fun claim member => clear claim (subset_of_package member), ?_⟩
  rw [claimsAt_of_package, List.filter_eq_nil_iff]
  intro claim claimed same
  obtain rfl : claim.packageId = package := of_decide_eq_true same
  have last := wins.last claim claimed
  have apart := (List.nodup_append.mp nodup).2.2
  have outside : claim.packageId ∉ before := fun member =>
    apart _ member _ (List.mem_cons_of_mem _ later) rfl
  have outside' : winner.packageId ∉ before := fun member => apart _ member _ List.mem_cons_self rfl
  have differs : winner.packageId ≠ claim.packageId := by
    intro same
    exact (List.nodup_cons.mp (List.nodup_append.mp nodup).2.1).1 (same ▸ later)
  rw [List.idxOf_append_of_notMem outside, List.idxOf_append_of_notMem outside',
    List.idxOf_cons_self, List.idxOf_cons_ne _ differs] at last
  omega

theorem view_eq_stack {priorityOrder : List PackageId} {compiled : CompiledNamespace}
    (nodup : priorityOrder.Nodup) (known : ∀ claim ∈ claims, claim.packageId ∈ priorityOrder)
    (consistent : Consistent claims)
    (represents : Represents priorityOrder claims compiled.entries) :
    view compiled = Layer.stack (priorityOrder.map (layerOf claims)) := by
  funext path
  by_cases directory : DirectoryAt claims path
  · rw [view_of_directoryAt represents consistent directory]
    refine (Layer.stack_of_agree ?_ ?_).symm
    · intro layer member node found
      obtain ⟨package, _, rfl⟩ := List.mem_map.mp member
      exact consistent.eq_directory directory subset_of_package found
    · obtain ⟨claim, member, placed⟩ : ∃ claim ∈ claims,
          LiesUnder path claim.gameRelativePath ∨ claim.gameRelativePath = path := by
        rcases directory with ⟨claim, member, under⟩ | ⟨claim, claimed, _⟩
        · exact ⟨claim, member, .inl under⟩
        · exact ⟨claim, (mem_claimsAt.mp claimed).1, .inr (mem_claimsAt.mp claimed).2⟩
      refine ⟨_, List.mem_map_of_mem (known claim member), fun none => ?_⟩
      obtain ⟨clear, unclaimed⟩ := mountClaims_eq_none_iff.mp none
      have own : claim ∈ claims.filter fun other => other.packageId = claim.packageId := by
        simpa using member
      rcases placed with under | same
      · exact clear claim own under
      · exact List.ne_nil_of_mem (mem_claimsAt.mpr ⟨own, same⟩) unclaimed
  · obtain ⟨clear, files⟩ := not_or.mp directory
    push Not at clear files
    cases claimed : claimsAt claims path with
    | nil =>
      rw [view_of_unclaimed represents clear claimed, eq_comm, Layer.stack_eq_none_iff]
      intro layer member
      obtain ⟨package, _, rfl⟩ := List.mem_map.mp member
      refine mountClaims_eq_none_iff.mpr
        ⟨fun claim claimIn => clear claim (subset_of_package claimIn), ?_⟩
      rw [claimsAt_of_package, claimed, List.filter_nil]
    | cons claim rest =>
      have first : claim ∈ claimsAt claims path := claimed ▸ List.mem_cons_self
      obtain ⟨winner, wins, shown⟩ := view_of_file represents first (files claim first)
      obtain ⟨member, _⟩ := mem_claimsAt.mp wins.mem
      obtain ⟨before, after, split⟩ := List.append_of_mem (known winner member)
      rw [split] at nodup wins
      rw [shown, eq_comm, split, List.map_append, List.map_cons, Layer.stack_eq_some_iff]
      refine ⟨_, _, _, rfl, layerOf_winner consistent wins (files winner wins.mem), ?_⟩
      intro layer later
      obtain ⟨package, packageIn, rfl⟩ := List.mem_map.mp later
      exact layerOf_after_winner nodup wins clear packageIn

end Stack

end NamespaceLayers

open NamespaceLayers PlanningRun

theorem PlanningRun.nodup (run : PlanningRun) : run.priorityOrder.Nodup :=
  have accepted := (ConflictResolutionReport.created_of_create run.owned run.report_created).1
  (ConflictResolutionPolicy.create_eq_ok_iff.mp accepted).2.1

/-- A compiled namespace lists at each path but the root, with its kind and its claim, what the
union mount of the packages shows there, with later packages of the priority order atop earlier
ones. -/
theorem compile_stacks_layers (run : PlanningRun) (result : NamespaceCompilationResult)
    (compiled : NamespaceCompilationResult.compile run.report = .ok result) :
    view result.compiledNamespace = Layer.stack (run.priorityOrder.map (layerOf run.claims)) :=
  let ⟨plannable, realizes⟩ := run.realizes_of_compile compiled
  view_eq_stack run.nodup run.known (.of_plannable plannable) (realizes.represents plannable)

theorem compile_stacks_layers_of_contested :
    view ⟨contestedEntries⟩ = Layer.stack ([⟨[1]⟩, ⟨[2]⟩].map (layerOf contestedClaims)) :=
  compile_stacks_layers contested contestedResult (by decide)

end FastModManager.Domain
