import FastModManager.Core.PathNormalizerLaws
import FastModManager.Domain.NamespacePlanning
import FastModManager.Domain.PackageRootMapping
import FastModManager.Foundation.PathWalk

namespace FastModManager.Domain

open Foundation NamespacePlan PathWalk
open Core.PathNormalizer (dot dotDot normalizeArchiveEntry)

/-- Looked up from any directory, the path leads below it, along its own names. -/
def StaysBelow (path : Bytes) : Prop := Confined slash [dot] dotDot path

theorem staysBelow_of_normalized {rawPath cleaned : Bytes}
    (accepted : normalizeArchiveEntry rawPath = .ok cleaned) : StaysBelow cleaned := by
  obtain ⟨safe, rfl⟩ := Core.PathNormalizer.normalizeArchiveEntry_eq_ok_iff.mp accepted
  by_cases empty : Core.PathNormalizer.kept (Core.PathNormalizer.replaceBackslashes rawPath) = []
  · rw [Core.PathNormalizer.clean_eq_nil empty]
    exact confined_nil
  · have split := Core.PathNormalizer.splitOn_clean empty
    have untraversed := Core.PathNormalizer.dotDot_not_mem_clean safe.noTraversal
    refine confined_iff.mpr fun segment member => ?_
    have among : segment ∈ (Core.PathNormalizer.clean
        (Core.PathNormalizer.replaceBackslashes rawPath)).splitOn slash := by
      unfold Segments.pieces at member
      split at member
      · cases member
      · exact member
    obtain ⟨_, nonempty, named⟩ := Core.PathNormalizer.mem_kept (split ▸ among)
    refine ⟨nonempty, named, ?_⟩
    rintro rfl
    exact untraversed among

theorem staysBelow_map_iff {mapping : PackageRootMapping} {path : PackageRelativePath}
    {game : GameRelativePath} (mapped : mapping.map path = some game)
    (below : StaysBelow path.nativeBytes) :
    StaysBelow game.nativeBytes ↔ StaysBelow mapping.gameRoot.nativeBytes := by
  obtain ⟨_, maps⟩ := PackageRootMapping.map_eq_some_iff.mp mapped
  generalize path.nativeBytes = packagePath, game.nativeBytes = gamePath at maps below ⊢
  cases maps with
  | root => exact Iff.rfl
  | below suffix =>
    have proper := (confined_below_iff.mp below).2
    rw [PackageRootMapping.under]
    split
    · rename_i empty
      have nonempty : suffix ≠ [] := by
        rintro rfl
        exact (proper [] (by simp)).nonempty rfl
      rw [empty]
      exact iff_of_true ((confined_iff_of_ne_nil nonempty).mpr proper) confined_nil
    · rename_i nonempty
      rw [StaysBelow, confined_below_iff, and_iff_left proper, StaysBelow,
        confined_iff_of_ne_nil nonempty]

theorem staysBelow_of_ancestor {ancestor path : Bytes} (above : IsAncestor ancestor path)
    (below : StaysBelow path) : StaysBelow ancestor := by
  obtain ⟨nonempty, rest, rfl⟩ := isAncestor_iff.mp above
  rw [List.append_assoc] at below
  exact (confined_iff_of_ne_nil nonempty).mpr (confined_below_iff.mp below).1

theorem NamespacePlan.Represents.staysBelow_iff {priorityOrder : List PackageId}
    {claims : List PackagePathClaim} {entries : List CompiledNamespaceEntry}
    (represents : Represents priorityOrder claims entries) :
    (∀ entry ∈ entries, StaysBelow entry.path.nativeBytes) ↔
      ∀ claim ∈ claims, StaysBelow claim.gameRelativePath.nativeBytes := by
  constructor
  · intro below claim member
    obtain ⟨entry, entryIn, same⟩ :=
      (represents.path_iff claim.gameRelativePath).mpr (.inl ⟨claim, member, rfl⟩)
    exact same ▸ below entry entryIn
  · intro below entry member
    rcases (represents.path_iff entry.path).mp ⟨entry, member, rfl⟩ with
      ⟨claim, claimIn, same⟩ | ⟨claim, claimIn, ancestor⟩
    · exact same ▸ below claim claimIn
    · exact staysBelow_of_ancestor ancestor (below claim claimIn)

/-- Where every claim is on an entry of an archive moved by some mapping, every path of the
compiled namespace, synthetic ancestors included, leads from any directory straight down, if and
only if every root in the game does. -/
theorem compile_staysBelow_iff (run : PlanningRun) (result : NamespaceCompilationResult)
    (compiled : NamespaceCompilationResult.compile run.report = .ok result)
    (rawPath : PackagePathClaim → Bytes) (mapping : PackagePathClaim → PackageRootMapping)
    (normalized : ∀ claim ∈ run.claims,
      normalizeArchiveEntry (rawPath claim) = .ok claim.packageRelativePath.nativeBytes)
    (mapped : ∀ claim ∈ run.claims,
      (mapping claim).map claim.packageRelativePath = some claim.gameRelativePath) :
    (∀ entry ∈ result.compiledNamespace.entries, StaysBelow entry.path.nativeBytes) ↔
      ∀ claim ∈ run.claims, StaysBelow (mapping claim).gameRoot.nativeBytes := by
  obtain ⟨plannable, realizes⟩ := run.realizes_of_compile compiled
  rw [(realizes.represents plannable).staysBelow_iff]
  refine forall₂_congr fun claim member => ?_
  exact staysBelow_map_iff (mapped claim member)
    (staysBelow_of_normalized (normalized claim member))

theorem compile_staysBelow_iff_of_contested :
    PlanningRun.contestedEntries ≠ [] ∧
      ∀ entry ∈ PlanningRun.contestedEntries, StaysBelow entry.path.nativeBytes :=
  ⟨by decide,
    (compile_staysBelow_iff PlanningRun.contested PlanningRun.contestedResult (by decide)
      (fun _ => [0x2E, 0x2F, 98]) (fun _ => ⟨⟨[98]⟩, ⟨[97, 47, 98]⟩⟩) (by decide) (by decide)).mpr
      fun _ _ => staysBelow_of_normalized (by decide : normalizeArchiveEntry [97, 47, 98] = _)⟩

end FastModManager.Domain
