import FastModManager.Domain.CompiledNamespace
import FastModManager.Domain.ConflictResolutionLaws

/-! The namespace that a list of claims and a priority order stand for, said without the
planner: which claims can be planned, and which entries the plan has. -/

namespace FastModManager.Domain

open Foundation
open FileOwnershipGraph (isDirectory claimsAt mem_claimsAt claimsAt_perm LiesUnder)
open ConflictResolutionReport (Wins)

/-- `ancestor` is `path` up to a separator that is not its first byte. -/
def IsAncestor (ancestor path : Bytes) : Prop :=
  ∃ position, 0 < position ∧ path[position]? = some slash ∧ ancestor = path.take position

theorem isAncestor_iff {ancestor path : Bytes} :
    IsAncestor ancestor path ↔ ancestor ≠ [] ∧ ancestor ++ [slash] <+: path := by
  constructor
  · rintro ⟨position, positive, separator, rfl⟩
    obtain ⟨inside, at_position⟩ := List.getElem?_eq_some_iff.mp separator
    constructor
    · intro empty
      rw [List.take_eq_nil_iff] at empty
      rcases empty with zero | nil
      · omega
      · simp [nil] at inside
    · rw [← at_position, List.take_append_getElem inside]
      exact List.take_prefix _ _
  · rintro ⟨nonempty, rest, rfl⟩
    exact ⟨ancestor.length, List.length_pos_iff.mpr nonempty, by simp, by simp⟩

theorem IsAncestor.trans {first second third : Bytes} (inner : IsAncestor first second)
    (outer : IsAncestor second third) : IsAncestor first third := by
  rw [isAncestor_iff] at inner outer ⊢
  exact ⟨inner.1, inner.2.trans ((List.prefix_append second [slash]).trans outer.2)⟩

theorem IsAncestor.lt {ancestor path : Bytes} (h : IsAncestor ancestor path) : ancestor < path := by
  obtain ⟨_, rest, rfl⟩ := isAncestor_iff.mp h
  rw [List.append_assoc]
  exact lt_append_cons ancestor slash rest

theorem IsAncestor.liesUnder {ancestor path : GameRelativePath}
    (h : IsAncestor ancestor.nativeBytes path.nativeBytes) : LiesUnder ancestor path :=
  .inr (isAncestor_iff.mp h).2

namespace NamespacePlan

variable {priorityOrder : List PackageId} {claims claims' : List PackagePathClaim}

def Resolvable (priorityOrder : List PackageId) (claims : List PackagePathClaim) : Prop :=
  (∀ claim ∈ claims, claim.kind = .directory) ∨
    (∀ claim ∈ claims, claim.kind ≠ .directory) ∧ ∃ winner, Wins priorityOrder claims winner

structure Plannable (priorityOrder : List PackageId) (claims : List PackagePathClaim) : Prop where
  resolvable : ∀ path, 2 ≤ (claimsAt claims path).length →
    Resolvable priorityOrder (claimsAt claims path)
  unobstructed : ∀ above ∈ claims, ∀ below ∈ claims, above.kind ≠ .directory →
    ¬ LiesUnder above.gameRelativePath below.gameRelativePath

theorem Resolvable.perm (perm : claims.Perm claims') (h : Resolvable priorityOrder claims) :
    Resolvable priorityOrder claims' := by
  rcases h with directories | ⟨files, winner, wins⟩
  · exact .inl fun claim member => directories claim (perm.symm.subset member)
  · exact .inr ⟨fun claim member => files claim (perm.symm.subset member), winner, wins.perm perm⟩

theorem Plannable.perm (perm : claims.Perm claims') (h : Plannable priorityOrder claims) :
    Plannable priorityOrder claims' where
  resolvable path several := by
    have atPath := claimsAt_perm perm path
    exact (h.resolvable path (by rwa [atPath.length_eq])).perm atPath
  unobstructed above aboveIn below belowIn :=
    h.unobstructed above (perm.symm.subset aboveIn) below (perm.symm.subset belowIn)

inductive ClaimedEntry (priorityOrder : List PackageId) (path : GameRelativePath)
    (claims : List PackagePathClaim) : CompiledNamespaceEntry → Prop where
  | directory : claims ≠ [] → (∀ claim ∈ claims, claim.kind = .directory) →
      ClaimedEntry priorityOrder path claims
        ⟨path, .directory, if claims.length = 1 then .singleClaim else .mergedDirectories, none, none⟩
  | file {winner : PackagePathClaim} : (∀ claim ∈ claims, claim.kind ≠ .directory) →
      Wins priorityOrder claims winner →
      ClaimedEntry priorityOrder path claims
        ⟨path, winner.kind, if claims.length = 1 then .singleClaim else .priorityWinner,
          some winner, none⟩

/-- The entries of the namespace: one for each claimed path, and one for each ancestor that
nobody claims. -/
inductive PlannedEntry (priorityOrder : List PackageId) (claims : List PackagePathClaim) :
    CompiledNamespaceEntry → Prop where
  | claimed {path : GameRelativePath} {entry : CompiledNamespaceEntry} :
      ClaimedEntry priorityOrder path (claimsAt claims path) entry →
      PlannedEntry priorityOrder claims entry
  | synthetic {claim : PackagePathClaim} {path : GameRelativePath} : claim ∈ claims →
      IsAncestor path.nativeBytes claim.gameRelativePath.nativeBytes → claimsAt claims path = [] →
      PlannedEntry priorityOrder claims ⟨path, .directory, .syntheticDirectory, none, none⟩

theorem ClaimedEntry.perm {path : GameRelativePath} {entry : CompiledNamespaceEntry}
    (perm : claims.Perm claims') (h : ClaimedEntry priorityOrder path claims entry) :
    ClaimedEntry priorityOrder path claims' entry := by
  cases h with
  | directory nonempty directories =>
    rw [perm.length_eq]
    refine .directory ?_ fun claim member => directories claim (perm.symm.subset member)
    rintro rfl
    exact nonempty perm.eq_nil
  | file files wins =>
    rw [perm.length_eq]
    exact .file (fun claim member => files claim (perm.symm.subset member)) (wins.perm perm)

theorem ClaimedEntry.path_eq {path : GameRelativePath} {entry : CompiledNamespaceEntry}
    (h : ClaimedEntry priorityOrder path claims entry) : entry.path = path := by
  cases h <;> rfl

theorem ClaimedEntry.claims_ne_nil {path : GameRelativePath} {entry : CompiledNamespaceEntry}
    (h : ClaimedEntry priorityOrder path claims entry) : claims ≠ [] := by
  cases h with
  | directory nonempty => exact nonempty
  | file _ wins => exact List.ne_nil_of_mem wins.mem

theorem ClaimedEntry.origin_ne {path : GameRelativePath} {entry : CompiledNamespaceEntry}
    (h : ClaimedEntry priorityOrder path claims entry) : entry.origin ≠ .syntheticDirectory := by
  cases h with
  | directory =>
    by_cases single : claims.length = 1
    · simp [single]
    · simp [single]
  | file =>
    by_cases single : claims.length = 1
    · simp [single]
    · simp [single]

theorem PlannedEntry.perm {entry : CompiledNamespaceEntry} (perm : claims.Perm claims')
    (h : PlannedEntry priorityOrder claims entry) : PlannedEntry priorityOrder claims' entry := by
  cases h with
  | claimed entry => exact .claimed (entry.perm (claimsAt_perm perm _))
  | @synthetic claim path claimed ancestor unclaimed =>
    refine .synthetic (perm.subset claimed) ancestor ?_
    have atPath := claimsAt_perm perm path
    rw [unclaimed] at atPath
    exact atPath.nil_eq.symm

theorem ClaimedEntry.unique {path : GameRelativePath} {left right : CompiledNamespaceEntry}
    (known : ∀ claim ∈ claims, claim.packageId ∈ priorityOrder)
    (hl : ClaimedEntry priorityOrder path claims left)
    (hr : ClaimedEntry priorityOrder path claims right) : left = right := by
  cases hl with
  | directory nonempty directories =>
    cases hr with
    | directory => rfl
    | file files wins => exact absurd (directories _ wins.mem) (files _ wins.mem)
  | file files wins =>
    cases hr with
    | directory nonempty directories => exact absurd (directories _ wins.mem) (files _ wins.mem)
    | file _ wins' => rw [wins.unique known wins']

theorem wins_singleton (claim : PackagePathClaim) : Wins priorityOrder [claim] claim where
  last := by simp
  sole := by simp

theorem Plannable.resolvable_of_claimed {path : GameRelativePath}
    (plannable : Plannable priorityOrder claims) (claimed : claimsAt claims path ≠ []) :
    Resolvable priorityOrder (claimsAt claims path) := by
  by_cases several : 2 ≤ (claimsAt claims path).length
  · exact plannable.resolvable path several
  · have length : (claimsAt claims path).length = 1 := by
      have := List.length_pos_iff.mpr claimed
      omega
    obtain ⟨claim, single⟩ := List.length_eq_one_iff.mp length
    rw [single]
    by_cases directory : claim.kind = .directory
    · exact .inl (by simpa using directory)
    · exact .inr ⟨by simpa using directory, claim, wins_singleton claim⟩

theorem Plannable.exists_claimedEntry {path : GameRelativePath}
    (plannable : Plannable priorityOrder claims) (claimed : claimsAt claims path ≠ []) :
    ∃ entry, ClaimedEntry priorityOrder path (claimsAt claims path) entry := by
  rcases plannable.resolvable_of_claimed claimed with directories | ⟨files, winner, wins⟩
  · exact ⟨_, .directory claimed directories⟩
  · exact ⟨_, .file files wins⟩

structure Realizes (priorityOrder : List PackageId) (claims : List PackagePathClaim)
    (compiled : CompiledNamespace) : Prop where
  increasing : compiled.entries.Pairwise fun left right =>
    left.path.nativeBytes < right.path.nativeBytes
  mem_iff : ∀ entry, entry ∈ compiled.entries ↔ PlannedEntry priorityOrder claims entry

theorem Realizes.nodup {compiled : CompiledNamespace}
    (realizes : Realizes priorityOrder claims compiled) : (compiled.entries.map (·.path)).Nodup := by
  apply List.Pairwise.map _ _ realizes.increasing
  intro left right less same
  exact absurd (congrArg GameRelativePath.nativeBytes same) less.ne

theorem Realizes.perm {compiled : CompiledNamespace} (perm : claims.Perm claims')
    (realizes : Realizes priorityOrder claims compiled) :
    Realizes priorityOrder claims' compiled where
  increasing := realizes.increasing
  mem_iff entry := (realizes.mem_iff entry).trans ⟨.perm perm, .perm perm.symm⟩

theorem Realizes.unique {left right : CompiledNamespace} (perm : claims.Perm claims')
    (hl : Realizes priorityOrder claims left) (hr : Realizes priorityOrder claims' right) :
    left = right := by
  obtain ⟨entries⟩ := left
  obtain ⟨entries'⟩ := right
  congr 1
  apply eq_of_mem_iff_of_increasing (fun entry : CompiledNamespaceEntry => entry.path.nativeBytes)
    hl.increasing hr.increasing
  intro entry
  rw [hl.mem_iff entry, hr.mem_iff entry]
  exact ⟨PlannedEntry.perm perm, PlannedEntry.perm perm.symm⟩

section Tree

/-- Entries that can be mounted in order: every path comes after the directories above it. -/
structure MountableTree (entries : List CompiledNamespaceEntry) : Prop where
  increasing : entries.Pairwise fun left right => left.path.nativeBytes < right.path.nativeBytes
  parent : ∀ (index : Nat) (entry : CompiledNamespaceEntry), entries[index]? = some entry →
    ∀ position, 0 < position → entry.path.nativeBytes[position]? = some slash →
      ∃ earlier, earlier < index ∧ ∃ parent : CompiledNamespaceEntry,
        entries[earlier]? = some parent ∧
        parent.path.nativeBytes = entry.path.nativeBytes.take position ∧ parent.kind = .directory
  root : ∀ root ∈ entries, root.path.nativeBytes = [] →
    ∀ other ∈ entries, other ≠ root → root.kind = .directory

theorem MountableTree.nodup {entries : List CompiledNamespaceEntry} (tree : MountableTree entries) :
    (entries.map (·.path)).Nodup := by
  apply List.Pairwise.map _ _ tree.increasing
  intro left right less same
  exact absurd (congrArg GameRelativePath.nativeBytes same) less.ne

theorem MountableTree.exists_parent {entries : List CompiledNamespaceEntry}
    {entry : CompiledNamespaceEntry} {path : GameRelativePath} (tree : MountableTree entries)
    (member : entry ∈ entries) (ancestor : IsAncestor path.nativeBytes entry.path.nativeBytes) :
    ∃ parent ∈ entries, parent.path = path ∧ parent.kind = .directory := by
  obtain ⟨index, found⟩ := List.mem_iff_getElem?.mp member
  obtain ⟨position, positive, separator, same⟩ := ancestor
  obtain ⟨_, _, parent, atEarlier, samePath, directory⟩ :=
    tree.parent index entry found position positive separator
  exact ⟨parent, List.mem_of_getElem? atEarlier, GameRelativePath.ext (samePath.trans same.symm),
    directory⟩

theorem PlannedEntry.exists_claim_below {path : GameRelativePath} {entry : CompiledNamespaceEntry}
    (planned : PlannedEntry priorityOrder claims entry)
    (below : IsAncestor path.nativeBytes entry.path.nativeBytes) :
    ∃ claim ∈ claims, IsAncestor path.nativeBytes claim.gameRelativePath.nativeBytes := by
  cases planned with
  | claimed claimed =>
    rw [claimed.path_eq] at below
    obtain ⟨claim, member⟩ := List.exists_mem_of_ne_nil _ claimed.claims_ne_nil
    obtain ⟨claimIn, rfl⟩ := mem_claimsAt.mp member
    exact ⟨claim, claimIn, below⟩
  | synthetic member ancestor _ => exact ⟨_, member, below.trans ancestor⟩

theorem Plannable.directory_of_below {path : GameRelativePath} {below : PackagePathClaim}
    (plannable : Plannable priorityOrder claims) (belowIn : below ∈ claims)
    (under : LiesUnder path below.gameRelativePath) {entry : CompiledNamespaceEntry}
    (claimed : ClaimedEntry priorityOrder path (claimsAt claims path) entry) :
    entry.kind = .directory := by
  cases claimed with
  | directory => rfl
  | @file winner files wins =>
    obtain ⟨winnerIn, same⟩ := mem_claimsAt.mp wins.mem
    exact absurd (same ▸ under) (plannable.unobstructed winner winnerIn below belowIn
      (files winner wins.mem))

theorem Plannable.exists_directory {path : GameRelativePath} {below : PackagePathClaim}
    (plannable : Plannable priorityOrder claims) (belowIn : below ∈ claims)
    (ancestor : IsAncestor path.nativeBytes below.gameRelativePath.nativeBytes) :
    ∃ entry, PlannedEntry priorityOrder claims entry ∧ entry.path = path ∧
      entry.kind = .directory := by
  by_cases claimed : claimsAt claims path = []
  · exact ⟨_, .synthetic belowIn ancestor claimed, rfl, rfl⟩
  · obtain ⟨entry, claimedEntry⟩ := plannable.exists_claimedEntry claimed
    exact ⟨entry, .claimed claimedEntry, claimedEntry.path_eq,
      plannable.directory_of_below belowIn ancestor.liesUnder claimedEntry⟩

theorem Realizes.mountableTree {compiled : CompiledNamespace}
    (plannable : Plannable priorityOrder claims)
    (realizes : Realizes priorityOrder claims compiled) :
    MountableTree compiled.entries where
  increasing := realizes.increasing
  parent := by
    intro index entry found position positive separator
    have planned := (realizes.mem_iff entry).mp (List.mem_of_getElem? found)
    let path : GameRelativePath := ⟨entry.path.nativeBytes.take position⟩
    have ancestor : IsAncestor path.nativeBytes entry.path.nativeBytes :=
      ⟨position, positive, separator, rfl⟩
    obtain ⟨claim, member, above⟩ := planned.exists_claim_below ancestor
    obtain ⟨parent, parentPlanned, same, directory⟩ := plannable.exists_directory member above
    have less : parent.path.nativeBytes < entry.path.nativeBytes := by
      rw [same]
      exact ancestor.lt
    obtain ⟨earlier, before, atEarlier⟩ := exists_earlier_of_increasing
      (fun entry : CompiledNamespaceEntry => entry.path.nativeBytes) realizes.increasing
      ((realizes.mem_iff parent).mpr parentPlanned) found less
    exact ⟨earlier, before, parent, atEarlier, congrArg GameRelativePath.nativeBytes same, directory⟩
  root := by
    intro root rootIn empty other otherIn differs
    have planned := (realizes.mem_iff root).mp rootIn
    cases planned with
    | synthetic _ ancestor => exact absurd empty (isAncestor_iff.mp ancestor).1
    | @claimed path _ claimed =>
      have rootPath := claimed.path_eq
      have nonempty : other.path.nativeBytes ≠ [] := by
        intro otherEmpty
        have same : root.path = other.path := GameRelativePath.ext (empty.trans otherEmpty.symm)
        exact differs (List.inj_on_of_nodup_map realizes.nodup otherIn rootIn same.symm)
      obtain ⟨claim, member, long⟩ : ∃ claim ∈ claims, claim.gameRelativePath.nativeBytes ≠ [] := by
        cases (realizes.mem_iff other).mp otherIn with
        | claimed claimedOther =>
          rw [claimedOther.path_eq] at nonempty
          obtain ⟨claim, member⟩ := List.exists_mem_of_ne_nil _ claimedOther.claims_ne_nil
          obtain ⟨claimIn, rfl⟩ := mem_claimsAt.mp member
          exact ⟨claim, claimIn, nonempty⟩
        | @synthetic claim _ member ancestor _ =>
          refine ⟨claim, member, fun none => ?_⟩
          obtain ⟨_, rest, split⟩ := isAncestor_iff.mp ancestor
          simp [none] at split
      exact plannable.directory_of_below member (.inl ⟨rootPath ▸ empty, long⟩) claimed

end Tree

section Contents

structure Represents (priorityOrder : List PackageId) (claims : List PackagePathClaim)
    (entries : List CompiledNamespaceEntry) : Prop where
  path_iff : ∀ path, (∃ entry ∈ entries, entry.path = path) ↔
    (∃ claim ∈ claims, claim.gameRelativePath = path) ∨
      ∃ claim ∈ claims, IsAncestor path.nativeBytes claim.gameRelativePath.nativeBytes
  nodup : (entries.map (·.path)).Nodup
  unclaimed_iff : ∀ entry ∈ entries,
    claimsAt claims entry.path = [] ↔ entry.origin = .syntheticDirectory
  synthetic : ∀ entry ∈ entries, entry.origin = .syntheticDirectory →
    entry.kind = .directory ∧ entry.selectedClaim = none
  directory : ∀ entry ∈ entries, claimsAt claims entry.path ≠ [] →
    (∀ claim ∈ claimsAt claims entry.path, claim.kind = .directory) →
      entry.kind = .directory ∧ entry.selectedClaim = none
  file : ∀ entry ∈ entries, (∃ claim ∈ claimsAt claims entry.path, claim.kind ≠ .directory) →
    ∃ winner, Wins priorityOrder (claimsAt claims entry.path) winner ∧
      entry.selectedClaim = some winner ∧ entry.kind = winner.kind

theorem Realizes.represents {compiled : CompiledNamespace}
    (plannable : Plannable priorityOrder claims)
    (realizes : Realizes priorityOrder claims compiled) :
    Represents priorityOrder claims compiled.entries where
  path_iff := by
    intro path
    simp only [realizes.mem_iff]
    constructor
    · rintro ⟨entry, planned, rfl⟩
      cases planned with
      | claimed claimed =>
        obtain ⟨claim, member⟩ := List.exists_mem_of_ne_nil _ claimed.claims_ne_nil
        rw [claimed.path_eq]
        exact .inl ⟨claim, mem_claimsAt.mp member⟩
      | synthetic member ancestor _ => exact .inr ⟨_, member, ancestor⟩
    · rintro (⟨claim, member, rfl⟩ | ⟨claim, member, ancestor⟩)
      · have claimed : claimsAt claims claim.gameRelativePath ≠ [] :=
          List.ne_nil_of_mem (mem_claimsAt.mpr ⟨member, rfl⟩)
        obtain ⟨entry, claimedEntry⟩ := plannable.exists_claimedEntry claimed
        exact ⟨entry, .claimed claimedEntry, claimedEntry.path_eq⟩
      · obtain ⟨entry, planned, same, _⟩ := plannable.exists_directory member ancestor
        exact ⟨entry, planned, same⟩
  nodup := realizes.nodup
  unclaimed_iff := by
    intro entry member
    cases (realizes.mem_iff entry).mp member with
    | claimed claimed =>
      rw [claimed.path_eq]
      exact iff_of_false claimed.claims_ne_nil claimed.origin_ne
    | synthetic _ _ unclaimed => exact iff_of_true unclaimed rfl
  synthetic := by
    intro entry member synthetic
    cases (realizes.mem_iff entry).mp member with
    | claimed claimed => exact absurd synthetic claimed.origin_ne
    | synthetic => exact ⟨rfl, rfl⟩
  directory := by
    intro entry member claimed directories
    cases (realizes.mem_iff entry).mp member with
    | claimed claimedEntry =>
      rw [claimedEntry.path_eq] at directories
      cases claimedEntry with
      | directory => exact ⟨rfl, rfl⟩
      | file files wins => exact absurd (directories _ wins.mem) (files _ wins.mem)
    | synthetic => exact ⟨rfl, rfl⟩
  file := by
    rintro entry member ⟨claim, claimIn, file⟩
    cases (realizes.mem_iff entry).mp member with
    | claimed claimedEntry =>
      rw [claimedEntry.path_eq] at claimIn ⊢
      cases claimedEntry with
      | directory _ directories => exact absurd (directories claim claimIn) file
      | file _ wins => exact ⟨_, wins, rfl, rfl⟩
    | synthetic _ _ unclaimed => simp [unclaimed] at claimIn

end Contents

end NamespacePlan

end FastModManager.Domain
