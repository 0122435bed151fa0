import FastModManager.Domain.NamespacePlan

namespace FastModManager.Domain.CompiledNamespace

open Foundation NamespacePlan
open FileOwnershipGraph (claimsAt mem_claimsAt)
open ConflictResolutionReport (Wins)

section EntryKinds

def mergeKind : Option (Option PackageEntryKind) → PackageEntryKind → Option PackageEntryKind
  | none, kind => some kind
  | some none, _ => none
  | some (some known), kind => if known = kind then some known else none

def listedAt (entries : List PackageLayoutEntry) (key : Bytes) : List PackageLayoutEntry :=
  entries.filter fun entry => entry.relativePath.nativeBytes = key

theorem lookup_indexEntryKind (entryKinds : Map Bytes (Option PackageEntryKind))
    (entry : PackageLayoutEntry) (key : Bytes) :
    (indexEntryKind entryKinds entry).lookup key =
      if entry.relativePath.nativeBytes = key then some (mergeKind (entryKinds.lookup key) entry.kind)
      else entryKinds.lookup key := by
  by_cases known : entry.relativePath.nativeBytes ∈ entryKinds
  · obtain ⟨kind, found, _⟩ := Map.checkedAt_of_mem known
    simp only [indexEntryKind, Map.emplace, if_pos known, found]
    by_cases here : entry.relativePath.nativeBytes = key
    · subst here
      cases kind with
      | none => simp [found, mergeKind]
      | some kind =>
        by_cases same : kind = entry.kind <;>
          simp [found, mergeKind, same, AList.lookup_insert]
    · rw [if_neg here]
      cases kind with
      | none => rfl
      | some kind => dsimp only; split <;> simp [AList.lookup_insert_ne (Ne.symm here)]
  · simp only [indexEntryKind, Map.emplace, if_neg known, AList.lookup_insert]
    by_cases here : entry.relativePath.nativeBytes = key
    · subst here
      simp [mergeKind, AList.lookup_insert, AList.lookup_eq_none.mpr known]
    · simp [here, AList.lookup_insert_ne (Ne.symm here)]

theorem lookup_indexEntryKinds (entryKinds : Map Bytes (Option PackageEntryKind))
    (entries : List PackageLayoutEntry) (key : Bytes) :
    (entries.foldl indexEntryKind entryKinds).lookup key =
      (listedAt entries key).foldl (fun known entry => some (mergeKind known entry.kind))
        (entryKinds.lookup key) := by
  induction entries generalizing entryKinds with
  | nil => rfl
  | cons entry entries ih =>
    rw [List.foldl_cons, ih, lookup_indexEntryKind]
    by_cases here : entry.relativePath.nativeBytes = key <;> simp [here, listedAt]

theorem foldl_mergeKind_iff {entries : List PackageLayoutEntry}
    {known : Option (Option PackageEntryKind)} {kind : PackageEntryKind} :
    entries.foldl (fun known entry => some (mergeKind known entry.kind)) known = some (some kind) ↔
      (known = none ∧ entries ≠ [] ∨ known = some (some kind)) ∧
        ∀ entry ∈ entries, entry.kind = kind := by
  induction entries generalizing known with
  | nil => simp
  | cons entry entries ih =>
    rw [List.foldl_cons, ih]
    cases known with
    | none => simp [mergeKind]
    | some known =>
      cases known with
      | none => simp [mergeKind]
      | some known =>
        by_cases same : known = entry.kind
        · subst same
          simp [mergeKind]
        · have clash : known = kind → entry.kind ≠ kind := by
            rintro rfl
            exact Ne.symm same
          simpa [mergeKind, same] using fun first other => absurd other (clash first)

theorem lookup_entryKinds_iff {plan : PackagePlan} {key : Bytes} {kind : PackageEntryKind} :
    (packageSourceData plan).entryKinds.lookup key = some (some kind) ↔
      listedAt plan.entries key ≠ [] ∧ ∀ entry ∈ listedAt plan.entries key, entry.kind = kind := by
  rw [packageSourceData, lookup_indexEntryKinds, AList.lookup_empty, foldl_mergeKind_iff]
  simp

theorem lookup_entryKinds_of_single {plan : PackagePlan} {entry : PackageLayoutEntry} {key : Bytes}
    (single : listedAt plan.entries key = [entry]) :
    (packageSourceData plan).entryKinds.lookup key = some (some entry.kind) := by
  rw [lookup_entryKinds_iff, single]
  simp

end EntryKinds

section Packages

theorem indexPackageSources_of_distinct {records : List NamespacePackagePlanRecord}
    {packages : PackageSourceIndex}
    (matching : ∀ record ∈ records, record.lookupPackageId = record.packagePlan.packageId)
    (distinct : (records.map (·.lookupPackageId)).Nodup)
    (fresh : ∀ record ∈ records, record.lookupPackageId ∉ packages) :
    indexPackageSources records packages = .ok (packages.emplaceAll (records.map fun record =>
      (record.lookupPackageId, packageSourceData record.packagePlan))) := by
  induction records generalizing packages with
  | nil => rfl
  | cons record records ih =>
    obtain ⟨first, distinct⟩ := List.nodup_cons.mp distinct
    have emplaced : packages.emplace record.lookupPackageId (packageSourceData record.packagePlan) =
        (packages.insert record.lookupPackageId (packageSourceData record.packagePlan), true) := by
      rw [Map.emplace, if_neg (fresh record List.mem_cons_self)]
    simp only [indexPackageSources, matching record List.mem_cons_self, ne_eq, not_true_eq_false,
      if_false]
    rw [← matching record List.mem_cons_self, emplaced]
    simp only
    rw [ih (fun record member => matching record (List.mem_cons_of_mem _ member)) distinct]
    · simp [Map.emplaceAll, emplaced]
    · intro other member
      rw [AList.mem_insert, not_or]
      exact ⟨fun same => first (List.mem_map.mpr ⟨other, member, same⟩),
        fresh other (List.mem_cons_of_mem _ member)⟩

/-- Each record is kept under the id of its own plan, and no id is used twice. -/
structure WellKeyed (snapshot : List NamespacePackagePlanRecord) : Prop where
  matching : ∀ record ∈ snapshot, record.lookupPackageId = record.packagePlan.packageId
  distinct : (snapshot.map (·.lookupPackageId)).Nodup

theorem wellKeyed_of_indexPackageSources {records : List NamespacePackagePlanRecord}
    {packages result : PackageSourceIndex}
    (ran : indexPackageSources records packages = .ok result) :
    WellKeyed records ∧ ∀ record ∈ records, record.lookupPackageId ∉ packages := by
  induction records generalizing packages with
  | nil => exact ⟨⟨by simp, List.nodup_nil⟩, by simp⟩
  | cons record records ih =>
    simp only [indexPackageSources] at ran
    by_cases matching : record.lookupPackageId = record.packagePlan.packageId
    · rw [if_neg (not_not.mpr matching)] at ran
      by_cases known : record.lookupPackageId ∈ packages
      · rw [Map.emplace, if_pos known] at ran
        cases ran
      · rw [Map.emplace, if_neg known] at ran
        obtain ⟨keyed, fresh⟩ := ih ran
        have fresh' : ∀ other ∈ records, other.lookupPackageId ≠ record.lookupPackageId ∧
            other.lookupPackageId ∉ packages := by
          intro other member
          have unknown := fresh other member
          rwa [AList.mem_insert, not_or] at unknown
        refine ⟨⟨List.forall_mem_cons.mpr ⟨matching, keyed.matching⟩, ?_⟩,
          List.forall_mem_cons.mpr ⟨known, fun other member => (fresh' other member).2⟩⟩
        rw [List.map_cons, List.nodup_cons]
        refine ⟨fun again => ?_, keyed.distinct⟩
        obtain ⟨other, member, same⟩ := List.mem_map.mp again
        exact (fresh' other member).1 same
    · rw [if_pos matching] at ran
      cases ran

theorem WellKeyed.indexPackageSources {snapshot : List NamespacePackagePlanRecord}
    (keyed : WellKeyed snapshot) :
    ∃ packages, indexPackageSources snapshot ∅ = .ok packages ∧
      ∀ packageId package, packages.lookup packageId = some package ↔
        ∃ record ∈ snapshot, record.lookupPackageId = packageId ∧
          packageSourceData record.packagePlan = package := by
  refine ⟨_, indexPackageSources_of_distinct keyed.matching keyed.distinct (by simp), ?_⟩
  intro packageId package
  constructor
  · intro found
    rw [Map.lookup_emplaceAll, AList.lookup_empty, Option.none_or, List.lookup_eq_some_iff] at found
    obtain ⟨before, after, split, _⟩ := found
    have member : (packageId, package) ∈ snapshot.map fun record =>
        (record.lookupPackageId, packageSourceData record.packagePlan) := by
      rw [split]
      simp
    obtain ⟨record, recordIn, same⟩ := List.mem_map.mp member
    exact ⟨record, recordIn, congrArg Prod.fst same, congrArg Prod.snd same⟩
  · rintro ⟨record, member, rfl, rfl⟩
    apply Map.lookup_emplaceAll_of_mem
    · rw [List.map_map]
      exact keyed.distinct
    · exact List.mem_map.mpr ⟨record, member, rfl⟩

theorem indexPackageSources_of_plans {plans : List PackagePlan}
    {snapshot : List NamespacePackagePlanRecord} (distinct : (plans.map (·.packageId)).Nodup)
    (records : snapshot.Perm (plans.map fun plan => ⟨plan.packageId, plan⟩)) :
    ∃ packages, indexPackageSources snapshot ∅ = .ok packages ∧
      ∀ plan ∈ plans, packages.lookup plan.packageId = some (packageSourceData plan) := by
  have matching : ∀ record ∈ snapshot, record.lookupPackageId = record.packagePlan.packageId := by
    intro record member
    obtain ⟨plan, _, rfl⟩ := List.mem_map.mp (records.subset member)
    rfl
  have distinct' : (snapshot.map (·.lookupPackageId)).Nodup := by
    rw [(records.map _).nodup_iff, List.map_map]
    exact distinct
  refine ⟨_, indexPackageSources_of_distinct matching distinct' (by simp), ?_⟩
  intro plan member
  apply Map.lookup_emplaceAll_of_mem
  · rwa [List.map_map]
  · exact List.mem_map.mpr
      ⟨⟨plan.packageId, plan⟩, records.symm.subset (List.mem_map_of_mem member), rfl⟩

end Packages

section CompiledEntries

structure Unmapped (entry : CompiledNamespaceEntry) : Prop where
  directory : entry.kind = .directory → entry.selectedClaim = none
  file : entry.kind ≠ .directory →
    ∃ claim, entry.selectedClaim = some claim ∧ claim.kind = entry.kind
  unreferenced : entry.sourceReference = none

theorem unmapped_of_directory {data : CompiledEntryData} (directory : data.kind = .directory)
    (unselected : data.selectedClaim = none) : Unmapped data.entry :=
  ⟨fun _ => unselected, fun file => absurd directory file, rfl⟩

theorem unmapped_of_file {data : CompiledEntryData} {claim : PackagePathClaim}
    (selected : data.selectedClaim = some claim) (sameKind : claim.kind = data.kind)
    (file : claim.kind ≠ .directory) : Unmapped data.entry :=
  ⟨fun directory => absurd (sameKind.trans directory) file, fun _ => ⟨claim, selected, sameKind⟩, rfl⟩

theorem unmapped_of_compileDecision {decision : ExactPathDecision} {data : CompiledEntryData}
    (compiled : NamespaceCompilationResult.compileDecision decision = .ok data) :
    Unmapped data.entry := by
  unfold NamespaceCompilationResult.compileDecision at compiled
  split at compiled
  · cases compiled
  · split at compiled
    · cases compiled
    · split at compiled
      · cases compiled
        exact unmapped_of_directory rfl rfl
      · rename_i file
        cases compiled
        exact unmapped_of_file rfl rfl file
  · split at compiled
    · cases compiled
    · cases compiled
      exact unmapped_of_directory rfl rfl
  · cases compiled
  · split at compiled
    · cases compiled
    · rename_i accepted
      cases compiled
      exact unmapped_of_file rfl rfl (not_or.mp accepted).2
  · cases compiled

theorem unmapped_of_compile {report : ConflictResolutionReport} {compiled : CompiledNamespace}
    (ran : compile report = .ok compiled) : ∀ entry ∈ compiled.entries, Unmapped entry := by
  simp only [compile, NamespaceCompilationResult.compile] at ran
  split at ran
  · cases ran
  · rename_i result finished
    obtain rfl := Except.ok.inj ran
    split at finished
    · cases finished
    · split at finished
      · cases finished
      · rename_i decided compiledDecisions
        obtain rfl := Except.ok.inj finished
        intro entry member
        obtain ⟨data, dataIn, rfl⟩ := List.mem_map.mp member
        rcases List.mem_append.mp ((sortBy_perm _ _).subset dataIn) with fromDecision | synthetic
        · obtain ⟨decision, _, made⟩ :=
            exists_left_of_forall₂ (mapM_eq_ok_iff.mp compiledDecisions) fromDecision
          exact unmapped_of_compileDecision made
        · obtain ⟨ancestor, _, rfl⟩ := List.mem_map.mp synthetic
          exact unmapped_of_directory rfl rfl

theorem mapEntry_eq_ok_iff {packages : PackageSourceIndex} {entry mapped : CompiledNamespaceEntry}
    (unmapped : Unmapped entry) :
    mapEntry packages entry = .ok mapped ↔
      (entry.kind = .directory ∧ mapped = entry) ∨
        ∃ claim package, entry.kind ≠ .directory ∧ entry.selectedClaim = some claim ∧
          packages.lookup claim.packageId = some package ∧
          package.entryKinds.lookup claim.packageRelativePath.nativeBytes = some (some entry.kind) ∧
          mapped = { entry with
            sourceReference := some
              ⟨claim.packageId, claim.packageRelativePath, package.location⟩ } := by
  by_cases directory : entry.kind = .directory
  · simp [mapEntry, directory, unmapped.directory directory, unmapped.unreferenced, eq_comm]
  · obtain ⟨claim, selected, sameKind⟩ := unmapped.file directory
    cases package : packages.lookup claim.packageId with
    | none =>
      simp [mapEntry, directory, selected, sameKind, package, sourceMappingError]
    | some data =>
      cases found : data.entryKinds.lookup claim.packageRelativePath.nativeBytes with
      | none =>
        simp [mapEntry, directory, selected, sameKind, package, found, sourceMappingError]
      | some known =>
        cases known with
        | none =>
          simp [mapEntry, directory, selected, sameKind, package, found, sourceMappingError]
        | some kind =>
          by_cases same : kind = entry.kind
          · simp [mapEntry, directory, selected, sameKind, package, found, same, eq_comm]
          · simp [mapEntry, directory, selected, sameKind, package, found, same, sourceMappingError]

/-- A snapshot from which the files of the entries can be taken. -/
structure Provides (snapshot : List NamespacePackagePlanRecord)
    (entries : List CompiledNamespaceEntry) : Prop extends WellKeyed snapshot where
  provided : ∀ entry ∈ entries, entry.kind ≠ .directory → ∀ claim,
    entry.selectedClaim = some claim → ∃ record ∈ snapshot,
      record.lookupPackageId = claim.packageId ∧
        listedAt record.packagePlan.entries claim.packageRelativePath.nativeBytes ≠ [] ∧
          ∀ listed ∈ listedAt record.packagePlan.entries claim.packageRelativePath.nativeBytes,
            listed.kind = entry.kind

/-- An entry and what it is mapped to: a directory is left alone, a file is left alone but for
the reference to its source. -/
inductive MapsTo (snapshot : List NamespacePackagePlanRecord) (entry : CompiledNamespaceEntry) :
    CompiledNamespaceEntry → Prop where
  | directory : entry.kind = .directory → entry.sourceReference = none →
      MapsTo snapshot entry entry
  | file {claim : PackagePathClaim} {record : NamespacePackagePlanRecord} :
      entry.kind ≠ .directory → entry.selectedClaim = some claim → record ∈ snapshot →
      record.lookupPackageId = claim.packageId →
      MapsTo snapshot entry { entry with
        sourceReference := some ⟨claim.packageId, claim.packageRelativePath,
          record.packagePlan.packageLocation⟩ }

variable {snapshot : List NamespacePackagePlanRecord} {compiled : CompiledNamespace}
  {mapped : SourceMappedNamespace}

theorem mapSources_eq_ok_iff :
    compiled.mapSources snapshot = .ok mapped ↔
      ∃ packages, indexPackageSources snapshot ∅ = .ok packages ∧
        List.Forall₂ (fun entry result => mapEntry packages entry = .ok result)
          compiled.entries mapped.entries := by
  simp only [mapSources, ← mapM_eq_ok_iff]
  cases indexPackageSources snapshot ∅ with
  | error error => simp
  | ok packages =>
    cases ran : compiled.entries.mapM (mapEntry packages) with
    | error error => simp [ran]
    | ok entries =>
      obtain ⟨mappedEntries⟩ := mapped
      simp [ran]

theorem mapsTo_of_mapSources (unmapped : ∀ entry ∈ compiled.entries, Unmapped entry)
    (ran : compiled.mapSources snapshot = .ok mapped) :
    Provides snapshot compiled.entries ∧
      List.Forall₂ (MapsTo snapshot) compiled.entries mapped.entries := by
  obtain ⟨packages, indexed, entries⟩ := mapSources_eq_ok_iff.mp ran
  have keyed := (wellKeyed_of_indexPackageSources indexed).1
  obtain ⟨packages', indexed', lookup⟩ := keyed.indexPackageSources
  obtain rfl := Except.ok.inj (indexed.symm.trans indexed')
  have entry_spec {entry result : CompiledNamespaceEntry} (member : entry ∈ compiled.entries)
      (made : mapEntry packages entry = .ok result) :=
  (mapEntry_eq_ok_iff (unmapped entry member)).mp made
  constructor
  · refine ⟨keyed, fun entry member file claim selected => ?_⟩
    obtain ⟨result, _, made⟩ := exists_right_of_forall₂ entries member
    rcases entry_spec member made with
      ⟨directory, _⟩ | ⟨claim', package, _, selected', found, kinds, _⟩
    · exact absurd directory file
    · obtain rfl := Option.some.inj (selected.symm.trans selected')
      obtain ⟨record, recordIn, same, rfl⟩ := (lookup _ _).mp found
      exact ⟨record, recordIn, same, lookup_entryKinds_iff.mp kinds⟩
  · have members := (List.forall₂_and_left _ _).mpr ⟨fun entry member => member, entries⟩
    apply members.imp
    rintro entry result ⟨member, made⟩
    rcases entry_spec member made with
      ⟨directory, rfl⟩ | ⟨claim, package, file, selected, found, _, rfl⟩
    · exact .directory directory (unmapped _ member).unreferenced
    · obtain ⟨record, recordIn, same, rfl⟩ := (lookup _ _).mp found
      exact .file file selected recordIn same

theorem Provides.mapSources (provides : Provides snapshot compiled.entries)
    (unmapped : ∀ entry ∈ compiled.entries, Unmapped entry) :
    ∃ mapped, compiled.mapSources snapshot = .ok mapped := by
  obtain ⟨packages, indexed, lookup⟩ := provides.toWellKeyed.indexPackageSources
  have total : ∀ entry ∈ compiled.entries, ∃ result, mapEntry packages entry = .ok result := by
    intro entry member
    by_cases directory : entry.kind = .directory
    · exact ⟨entry, (mapEntry_eq_ok_iff (unmapped entry member)).mpr (.inl ⟨directory, rfl⟩)⟩
    · obtain ⟨claim, selected, _⟩ := (unmapped entry member).file directory
      obtain ⟨record, recordIn, same, listed⟩ :=
        provides.provided entry member directory claim selected
      have found := (lookup claim.packageId _).mpr ⟨record, recordIn, same, rfl⟩
      exact ⟨_, (mapEntry_eq_ok_iff (unmapped entry member)).mpr
        (.inr ⟨claim, _, directory, selected, found, lookup_entryKinds_iff.mpr listed, rfl⟩)⟩
  obtain ⟨results, ran⟩ := mapM_total total
  exact ⟨⟨results⟩, mapSources_eq_ok_iff.mpr ⟨packages, indexed, mapM_eq_ok_iff.mp ran⟩⟩

end CompiledEntries

section PlannedSources

def planClaims (destination : PackageId → PackageRelativePath → GameRelativePath)
    (plan : PackagePlan) : List PackagePathClaim :=
  plan.entries.map fun entry =>
    ⟨plan.packageId, entry.relativePath, destination plan.packageId entry.relativePath, entry.kind⟩

variable {destination : PackageId → PackageRelativePath → GameRelativePath}
  {plans : List PackagePlan} {claims : List PackagePathClaim} {priorityOrder : List PackageId}

theorem listedAt_of_wins {winner : PackagePathClaim} {path : GameRelativePath}
    (made : claims.Perm (plans.flatMap (planClaims destination)))
    (wins : Wins priorityOrder (claimsAt claims path) winner) :
    ∃ plan ∈ plans, plan.packageId = winner.packageId ∧
      ∃ entry, listedAt plan.entries winner.packageRelativePath.nativeBytes = [entry] ∧
        entry.kind = winner.kind := by
  obtain ⟨winnerIn, atPath⟩ := mem_claimsAt.mp wins.mem
  obtain ⟨plan, planIn, member⟩ := List.mem_flatMap.mp (made.subset winnerIn)
  obtain ⟨entry, entryIn, rfl⟩ := List.mem_map.mp member
  refine ⟨plan, planIn, rfl, ?_⟩
  let chosen (claim : PackagePathClaim) : Bool :=
    claim.gameRelativePath = path ∧ claim.packageId = plan.packageId
  have sole : claims.countP chosen = 1 := by
    have length := congrArg List.length wins.sole
    rw [claimsAt, List.filter_filter, ← List.countP_eq_length_filter, List.length_singleton] at length
    rw [← length]
    apply List.countP_congr
    intro claim _
    simp [chosen, and_comm]
  have listed : (listedAt plan.entries entry.relativePath.nativeBytes).length ≤ 1 := by
    calc (listedAt plan.entries entry.relativePath.nativeBytes).length
        = plan.entries.countP fun other =>
            other.relativePath.nativeBytes = entry.relativePath.nativeBytes := by
          rw [listedAt, List.countP_eq_length_filter]
      _ ≤ (planClaims destination plan).countP chosen := by
          rw [planClaims, List.countP_map]
          apply List.countP_mono_left
          rintro ⟨⟨bytes⟩, kind⟩ _ same
          simp only [decide_eq_true_eq] at same
          subst same
          simpa [chosen] using atPath
      _ ≤ (plans.flatMap (planClaims destination)).countP chosen := by
          apply List.Sublist.countP_le
          exact List.sublist_flatten_of_mem (List.mem_map_of_mem planIn)
      _ = 1 := by rw [← made.countP_eq, sole]
  have found : entry ∈ listedAt plan.entries entry.relativePath.nativeBytes := by
    simp [listedAt, entryIn]
  obtain ⟨other, single⟩ := List.length_eq_one_iff.mp
    (Nat.le_antisymm listed (List.length_pos_of_mem found))
  rw [single, List.mem_singleton] at found
  exact ⟨other, single, by rw [found]⟩

theorem mapEntry_of_planned {packages : PackageSourceIndex} {entry : CompiledNamespaceEntry}
    (indexed : ∀ plan ∈ plans, packages.lookup plan.packageId = some (packageSourceData plan))
    (made : claims.Perm (plans.flatMap (planClaims destination)))
    (planned : PlannedEntry priorityOrder claims entry) :
    ∃ mapped, mapEntry packages entry = .ok mapped := by
  cases planned with
  | claimed claimed =>
    cases claimed with
    | directory => exact ⟨_, rfl⟩
    | @file winner files wins =>
      obtain ⟨plan, planIn, same, listed, single, kind⟩ := listedAt_of_wins made wins
      have isFile := files winner wins.mem
      have package := indexed plan planIn
      rw [same] at package
      exact ⟨_, by simp [mapEntry, isFile, package, lookup_entryKinds_of_single single, kind]; rfl⟩
  | synthetic => exact ⟨_, rfl⟩

end PlannedSources

end FastModManager.Domain.CompiledNamespace
