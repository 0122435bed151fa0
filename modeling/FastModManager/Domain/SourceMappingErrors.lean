import FastModManager.Domain.NamespacePlanning

namespace FastModManager.Domain

open Foundation

namespace CompiledNamespace

section Index

inductive IndexFailure (snapshot : List NamespacePackagePlanRecord) :
    NamespaceSourceMappingError → Prop where
  | mismatched {before after : List NamespacePackagePlanRecord}
      {record : NamespacePackagePlanRecord} :
      snapshot = before ++ record :: after → WellKeyed before →
      record.lookupPackageId ≠ record.packagePlan.packageId →
      IndexFailure snapshot ⟨.mismatchedPackageId, some record.lookupPackageId,
        some record.packagePlan.packageId, none, none⟩
  | duplicate {before after : List NamespacePackagePlanRecord}
      {record : NamespacePackagePlanRecord} :
      snapshot = before ++ record :: after → WellKeyed before →
      record.lookupPackageId = record.packagePlan.packageId →
      record.lookupPackageId ∈ before.map (·.lookupPackageId) →
      IndexFailure snapshot ⟨.duplicatePackage, some record.lookupPackageId, none, none, none⟩

variable {snapshot : List NamespacePackagePlanRecord} {error : NamespaceSourceMappingError}

theorem indexPackageSources_append (first rest : List NamespacePackagePlanRecord)
    (packages : PackageSourceIndex) :
    indexPackageSources (first ++ rest) packages =
      indexPackageSources first packages >>= indexPackageSources rest := by
  induction first generalizing packages with
  | nil => rfl
  | cons record first ih =>
    rw [List.cons_append, indexPackageSources, indexPackageSources]
    by_cases matching : record.lookupPackageId = record.packagePlan.packageId
    · simp only [if_neg (not_not.mpr matching), Map.emplace]
      by_cases known : record.lookupPackageId ∈ packages
      · rw [if_pos known]
        rfl
      · rw [if_neg known]
        exact ih _
    · simp only [if_pos matching]
      rfl

theorem mem_index_iff {packages : PackageSourceIndex} {packageId : PackageId}
    (lookup : ∀ packageId package, packages.lookup packageId = some package ↔
      ∃ record ∈ snapshot, record.lookupPackageId = packageId ∧
        packageSourceData record.packagePlan = package) :
    packageId ∈ packages ↔ packageId ∈ snapshot.map (·.lookupPackageId) := by
  rw [← AList.lookup_isSome, Option.isSome_iff_exists, List.mem_map]
  constructor
  · rintro ⟨package, found⟩
    obtain ⟨record, member, same, _⟩ := (lookup packageId package).mp found
    exact ⟨record, member, same⟩
  · rintro ⟨record, member, same⟩
    exact ⟨_, (lookup packageId _).mpr ⟨record, member, same, rfl⟩⟩

theorem IndexFailure.indexPackageSources (failure : IndexFailure snapshot error) :
    indexPackageSources snapshot ∅ = .error error := by
  cases failure with
  | mismatched split keyed mismatch =>
    obtain ⟨packages, indexed, _⟩ := keyed.indexPackageSources
    rw [split, indexPackageSources_append, indexed]
    change CompiledNamespace.indexPackageSources _ packages = _
    rw [CompiledNamespace.indexPackageSources, if_pos mismatch]
    rfl
  | duplicate split keyed matching known =>
    obtain ⟨packages, indexed, lookup⟩ := keyed.indexPackageSources
    rw [split, indexPackageSources_append, indexed]
    change CompiledNamespace.indexPackageSources _ packages = _
    rw [CompiledNamespace.indexPackageSources, if_neg (not_not.mpr matching), Map.emplace,
      if_pos ((mem_index_iff lookup).mpr known)]
    rfl

theorem wellKeyed_or_failure (snapshot : List NamespacePackagePlanRecord) :
    WellKeyed snapshot ∨ ∃ error, IndexFailure snapshot error := by
  induction snapshot using List.reverseRecOn with
  | nil => exact .inl ⟨by simp, List.nodup_nil⟩
  | append_singleton before record ih =>
    rcases ih with keyed | ⟨error, failure⟩
    · by_cases matching : record.lookupPackageId = record.packagePlan.packageId
      · by_cases known : record.lookupPackageId ∈ before.map (·.lookupPackageId)
        · exact .inr ⟨_, .duplicate rfl keyed matching known⟩
        · refine .inl ⟨List.forall_mem_append.mpr ⟨keyed.matching, by simpa using matching⟩, ?_⟩
          rw [List.map_append, List.nodup_append']
          refine ⟨keyed.distinct, List.nodup_singleton _, ?_⟩
          rwa [List.map_singleton, List.disjoint_singleton]
      · exact .inr ⟨_, .mismatched rfl keyed matching⟩
    · right
      cases failure with
      | mismatched split keyed mismatch =>
        exact ⟨_, .mismatched (by rw [split, List.append_assoc]; rfl) keyed mismatch⟩
      | duplicate split keyed matching known =>
        exact ⟨_, .duplicate (by rw [split, List.append_assoc]; rfl) keyed matching known⟩

theorem indexPackageSources_eq_error_iff :
    indexPackageSources snapshot ∅ = .error error ↔ IndexFailure snapshot error := by
  refine ⟨fun failed => ?_, IndexFailure.indexPackageSources⟩
  rcases wellKeyed_or_failure snapshot with keyed | ⟨error', failure⟩
  · obtain ⟨packages, indexed, _⟩ := keyed.indexPackageSources
    rw [indexed] at failed
    cases failed
  · rw [failure.indexPackageSources] at failed
    rwa [← Except.error.inj failed]

end Index

section Entries

variable {snapshot : List NamespacePackagePlanRecord} {error : NamespaceSourceMappingError}

inductive EntryFailure (snapshot : List NamespacePackagePlanRecord)
    (entry : CompiledNamespaceEntry) :
    NamespaceSourceMappingError → Prop where
  | missingPackage {claim : PackagePathClaim} : entry.kind ≠ .directory →
      entry.selectedClaim = some claim →
      claim.packageId ∉ snapshot.map (·.lookupPackageId) →
      EntryFailure snapshot entry ⟨.missingPackage, some claim.packageId, none, some entry.path,
        some claim.packageRelativePath⟩
  | missingSourceEntry {claim : PackagePathClaim} {record : NamespacePackagePlanRecord} :
      entry.kind ≠ .directory → entry.selectedClaim = some claim → record ∈ snapshot →
      record.lookupPackageId = claim.packageId →
      listedAt record.packagePlan.entries claim.packageRelativePath.nativeBytes = [] →
      EntryFailure snapshot entry ⟨.missingSourceEntry, some claim.packageId, none, some entry.path,
        some claim.packageRelativePath⟩
  | invalidEntryKind {claim : PackagePathClaim} {record : NamespacePackagePlanRecord}
      {listed : PackageLayoutEntry} :
      entry.kind ≠ .directory → entry.selectedClaim = some claim → record ∈ snapshot →
      record.lookupPackageId = claim.packageId →
      listed ∈ listedAt record.packagePlan.entries claim.packageRelativePath.nativeBytes →
      listed.kind ≠ entry.kind →
      EntryFailure snapshot entry ⟨.invalidEntryKind, some claim.packageId, none, some entry.path,
        some claim.packageRelativePath⟩

theorem lookup_entryKinds_eq_none_iff {plan : PackagePlan} {key : Bytes} :
    (packageSourceData plan).entryKinds.lookup key = none ↔ listedAt plan.entries key = [] := by
  rw [packageSourceData, lookup_indexEntryKinds, AList.lookup_empty]
  induction listedAt plan.entries key using List.reverseRecOn with
  | nil => simp
  | append_singleton listed entry _ => simp

section Entry

variable {packages : PackageSourceIndex} {entry : CompiledNamespaceEntry}
  (lookup : ∀ packageId package, packages.lookup packageId = some package ↔
    ∃ record ∈ snapshot, record.lookupPackageId = packageId ∧
      packageSourceData record.packagePlan = package)

include lookup

theorem EntryFailure.mapEntry (failure : EntryFailure snapshot entry error)
    (unmapped : Unmapped entry) : mapEntry packages entry = .error error := by
  have sameKind {claim : PackagePathClaim} (file : entry.kind ≠ .directory)
      (selected : entry.selectedClaim = some claim) : claim.kind = entry.kind := by
    obtain ⟨claim', selected', sameKind⟩ := unmapped.file file
    rwa [Option.some.inj (selected.symm.trans selected')]
  cases failure with
  | missingPackage file selected unknown =>
    have absent := AList.lookup_eq_none.mpr (mt (mem_index_iff lookup).mp unknown)
    simp [CompiledNamespace.mapEntry, file, selected, sameKind file selected, absent,
      sourceMappingError]
  | missingSourceEntry file selected member same unlisted =>
    have found := (lookup _ _).mpr ⟨_, member, same, rfl⟩
    simp [CompiledNamespace.mapEntry, file, selected, sameKind file selected, found,
      lookup_entryKinds_eq_none_iff.mpr unlisted, sourceMappingError]
  | @invalidEntryKind claim record listed file selected member same listedIn otherKind =>
    have found := (lookup _ _).mpr ⟨_, member, same, rfl⟩
    cases kinds : (packageSourceData record.packagePlan).entryKinds.lookup
        claim.packageRelativePath.nativeBytes with
    | none =>
      rw [lookup_entryKinds_eq_none_iff.mp kinds] at listedIn
      exact absurd listedIn List.not_mem_nil
    | some known =>
      have unlike : known ≠ some entry.kind := by
        rintro rfl
        exact otherKind ((lookup_entryKinds_iff.mp kinds).2 listed listedIn)
      cases known with
      | none =>
        simp [CompiledNamespace.mapEntry, file, selected, sameKind file selected, found, kinds,
          sourceMappingError]
      | some kind =>
        have unlike : kind ≠ entry.kind := fun same => unlike (congrArg some same)
        simp [CompiledNamespace.mapEntry, file, selected, sameKind file selected, found, kinds,
          unlike, sourceMappingError]

theorem mapped_or_failure (unmapped : Unmapped entry) :
    (∃ mapped, mapEntry packages entry = .ok mapped) ∨
      ∃ error, EntryFailure snapshot entry error := by
  by_cases directory : entry.kind = .directory
  · exact .inl ⟨entry, (mapEntry_eq_ok_iff unmapped).mpr (.inl ⟨directory, rfl⟩)⟩
  obtain ⟨claim, selected, _⟩ := unmapped.file directory
  by_cases known : claim.packageId ∈ snapshot.map (·.lookupPackageId)
  · obtain ⟨record, member, same⟩ := List.mem_map.mp known
    by_cases unlisted :
        listedAt record.packagePlan.entries claim.packageRelativePath.nativeBytes = []
    · exact .inr ⟨_, .missingSourceEntry directory selected member same unlisted⟩
    by_cases all : ∀ listed ∈ listedAt record.packagePlan.entries
        claim.packageRelativePath.nativeBytes, listed.kind = entry.kind
    · have found := (lookup _ _).mpr ⟨record, member, same, rfl⟩
      exact .inl ⟨_, (mapEntry_eq_ok_iff unmapped).mpr (.inr ⟨claim, _, directory, selected, found,
        lookup_entryKinds_iff.mpr ⟨unlisted, all⟩, rfl⟩)⟩
    · push Not at all
      obtain ⟨listed, listedIn, otherKind⟩ := all
      exact .inr ⟨_, .invalidEntryKind directory selected member same listedIn otherKind⟩
  · exact .inr ⟨_, .missingPackage directory selected known⟩

theorem mapEntry_eq_error_iff (unmapped : Unmapped entry) :
    mapEntry packages entry = .error error ↔ EntryFailure snapshot entry error := by
  refine ⟨fun failed => ?_, fun failure => failure.mapEntry lookup unmapped⟩
  rcases mapped_or_failure lookup unmapped with ⟨mapped, succeeded⟩ | ⟨error', failure⟩
  · rw [succeeded] at failed
    cases failed
  · rw [failure.mapEntry lookup unmapped] at failed
    rwa [← Except.error.inj failed]

end Entry

inductive SourceFailure (snapshot : List NamespacePackagePlanRecord)
    (entries : List CompiledNamespaceEntry) (error : NamespaceSourceMappingError) : Prop where
  | index : IndexFailure snapshot error → SourceFailure snapshot entries error
  | entry {before after : List CompiledNamespaceEntry} {entry : CompiledNamespaceEntry} :
      entries = before ++ entry :: after → Provides snapshot before →
      EntryFailure snapshot entry error → SourceFailure snapshot entries error

variable {compiled : CompiledNamespace}

theorem mapSources_eq_error_iff (unmapped : ∀ entry ∈ compiled.entries, Unmapped entry) :
    compiled.mapSources snapshot = .error error ↔
      SourceFailure snapshot compiled.entries error := by
  constructor
  · intro failed
    cases indexed : indexPackageSources snapshot ∅ with
    | error error' =>
      simp only [mapSources, indexed] at failed
      cases failed
      exact .index (indexPackageSources_eq_error_iff.mp indexed)
    | ok packages =>
      have keyed := (wellKeyed_of_indexPackageSources indexed).1
      obtain ⟨packages', indexed', lookup⟩ := keyed.indexPackageSources
      obtain rfl := Except.ok.inj (indexed.symm.trans indexed')
      have stopped : compiled.entries.mapM (mapEntry packages) = .error error := by
        simp only [mapSources, indexed] at failed
        cases ran : compiled.entries.mapM (mapEntry packages) with
        | error error' => rw [ran] at failed; cases failed; rfl
        | ok results => rw [ran] at failed; cases failed
      obtain ⟨before, entry, after, split, succeed, fails⟩ := mapM_eq_error_iff.mp stopped
      rw [split, List.forall_mem_append, List.forall_mem_cons] at unmapped
      obtain ⟨results, ran⟩ := mapM_total succeed
      have mapped : mapSources ⟨before⟩ snapshot = .ok ⟨results⟩ :=
        mapSources_eq_ok_iff.mpr ⟨packages, indexed, mapM_eq_ok_iff.mp ran⟩
      exact .entry split (mapsTo_of_mapSources unmapped.1 mapped).1
        ((mapEntry_eq_error_iff lookup unmapped.2.1).mp fails)
  · intro failure
    cases failure with
    | index failure => simp only [mapSources, failure.indexPackageSources]
    | @entry before after entry split provides failure =>
      rw [split, List.forall_mem_append, List.forall_mem_cons] at unmapped
      obtain ⟨packages, indexed, lookup⟩ := provides.toWellKeyed.indexPackageSources
      have earlier : ∃ mapped, mapSources ⟨before⟩ snapshot = .ok mapped :=
        provides.mapSources unmapped.1
      obtain ⟨mapped, ran⟩ := earlier
      obtain ⟨packages', indexed', results⟩ := mapSources_eq_ok_iff.mp ran
      obtain rfl := Except.ok.inj (indexed.symm.trans indexed')
      have stopped : compiled.entries.mapM (mapEntry packages) = .error error := by
        refine mapM_eq_error_iff.mpr ⟨before, entry, after, split, fun earlier member => ?_,
          failure.mapEntry lookup unmapped.2.1⟩
        obtain ⟨result, _, made⟩ := exists_right_of_forall₂ results member
        exact ⟨result, made⟩
      simp only [mapSources, indexed, stopped]

end Entries

section Frame

variable {snapshot snapshot' : List NamespacePackagePlanRecord}

theorem mapEntry_congr {packages packages' : PackageSourceIndex} {entry : CompiledNamespaceEntry}
    (same : ∀ claim, entry.selectedClaim = some claim →
      packages.lookup claim.packageId = packages'.lookup claim.packageId) :
    mapEntry packages entry = mapEntry packages' entry := by
  cases selected : entry.selectedClaim with
  | none => simp only [mapEntry, selected]
  | some claim => simp only [mapEntry, selected, same claim selected]

def SameSources (compiled : CompiledNamespace)
    (snapshot snapshot' : List NamespacePackagePlanRecord) : Prop :=
  ∀ entry ∈ compiled.entries, ∀ claim, entry.selectedClaim = some claim →
    ∀ record, record.lookupPackageId = claim.packageId → (record ∈ snapshot ↔ record ∈ snapshot')

theorem SameSources.mapSources_eq {compiled : CompiledNamespace}
    (same : SameSources compiled snapshot snapshot') (keyed : WellKeyed snapshot)
    (keyed' : WellKeyed snapshot') :
    compiled.mapSources snapshot = compiled.mapSources snapshot' := by
  obtain ⟨packages, indexed, lookup⟩ := keyed.indexPackageSources
  obtain ⟨packages', indexed', lookup'⟩ := keyed'.indexPackageSources
  have alike : compiled.entries.mapM (mapEntry packages) =
      compiled.entries.mapM (mapEntry packages') := by
    refine mapM_congr_of_mem fun entry member => mapEntry_congr fun claim selected => ?_
    ext package
    rw [lookup, lookup']
    refine exists_congr fun record => and_congr_left fun kept => ?_
    exact same entry member claim selected record kept.1
  simp only [mapSources, indexed, indexed', alike]

end Frame

end CompiledNamespace

open PlanningRun

def contestedWinnerPlan : PackagePlan := ⟨⟨[2]⟩, ⟨none, none⟩, [⟨⟨[98]⟩, .regularFile⟩], []⟩

theorem mapSources_fails_iff (report : ConflictResolutionReport) (compiled : CompiledNamespace)
    (snapshot : List NamespacePackagePlanRecord) (error : NamespaceSourceMappingError)
    (ran : CompiledNamespace.compile report = .ok compiled) :
    compiled.mapSources snapshot = .error error ↔
      CompiledNamespace.SourceFailure snapshot compiled.entries error :=
  CompiledNamespace.mapSources_eq_error_iff (CompiledNamespace.unmapped_of_compile ran)

theorem mapSources_fails_iff_of_contested :
    (⟨contestedEntries⟩ : CompiledNamespace).mapSources [⟨⟨[1]⟩, contestedWinnerPlan⟩] =
        .error ⟨.mismatchedPackageId, some ⟨[1]⟩, some ⟨[2]⟩, none, none⟩ ↔
      CompiledNamespace.SourceFailure [⟨⟨[1]⟩, contestedWinnerPlan⟩] contestedEntries
        ⟨.mismatchedPackageId, some ⟨[1]⟩, some ⟨[2]⟩, none, none⟩ :=
  mapSources_fails_iff contested.report ⟨contestedEntries⟩ _ _ (by decide)

theorem mapSources_frame (compiled : CompiledNamespace)
    (snapshot snapshot' : List NamespacePackagePlanRecord)
    (keyed : CompiledNamespace.WellKeyed snapshot) (keyed' : CompiledNamespace.WellKeyed snapshot')
    (same : CompiledNamespace.SameSources compiled snapshot snapshot') :
    compiled.mapSources snapshot = compiled.mapSources snapshot' :=
  same.mapSources_eq keyed keyed'

theorem mapSources_frame_of_contested :
    (⟨contestedEntries⟩ : CompiledNamespace).mapSources
        (contestedPlans.map fun plan => ⟨plan.packageId, plan⟩) =
      (⟨contestedEntries⟩ : CompiledNamespace).mapSources [⟨⟨[2]⟩, contestedWinnerPlan⟩] := by
  refine mapSources_frame ⟨contestedEntries⟩ _ _ ⟨by decide, by decide⟩ ⟨by decide, by decide⟩ ?_
  intro entry member claim selected record kept
  have winner : claim = contestedWinner := by
    rcases List.mem_pair.mp member with rfl | rfl
    · cases selected
    · exact (Option.some.inj selected).symm
  subst winner
  constructor
  · intro known
    rcases List.mem_pair.mp known with rfl | rfl
    · exact absurd kept (by decide)
    · exact List.mem_singleton_self _
  · intro known
    rw [List.mem_singleton.mp known]
    decide

end FastModManager.Domain
