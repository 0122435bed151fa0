import FastModManager.Infrastructure.JsonProfilePersistence

namespace FastModManager.Infrastructure.JsonProfilePersistence

open Foundation Domain Application

section Paths

variable (storageDirectory : Bytes) (identity : ProfileIdentity)

theorem name_relative : identity.name.head? ≠ some slash := fun head =>
  identity.slash_not_mem_name (List.mem_of_mem_head? head)

theorem profileDirectory_ne_nil : profileDirectory storageDirectory identity ≠ [] := by
  intro empty
  rw [profileDirectory, NativePath.append_of_relative (name_relative identity)] at empty
  exact identity.name_ne_nil (List.append_eq_nil_iff.mp empty).2

theorem profileDirectory_named :
    (profileDirectory storageDirectory identity).getLast? ≠ some slash := by
  intro last
  rw [profileDirectory, NativePath.append_of_relative (name_relative identity),
    List.getLast?_append_of_ne_nil _ identity.name_ne_nil] at last
  exact identity.slash_not_mem_name (List.mem_of_getLast? last)

theorem metadataPath_eq : metadataPath storageDirectory identity =
    profileDirectory storageDirectory identity ++ slash :: metadataName :=
  NativePath.append_of_named (profileDirectory_ne_nil storageDirectory identity)
    (profileDirectory_named storageDirectory identity) (by decide)

theorem statePath_eq : statePath storageDirectory identity =
    profileDirectory storageDirectory identity ++ slash :: stateName :=
  NativePath.append_of_named (profileDirectory_ne_nil storageDirectory identity)
    (profileDirectory_named storageDirectory identity) (by decide)

theorem profileDirectory_inj {identity' : ProfileIdentity} :
    profileDirectory storageDirectory identity = profileDirectory storageDirectory identity' ↔
      identity.name = identity'.name := by
  constructor
  · exact NativePath.append_injective (name_relative identity) (name_relative identity')
  · intro same
    rw [profileDirectory, profileDirectory, same]

end Paths

section FileNames

variable {qt : QtText} (files : QtFiles qt) (storageDirectory : Bytes)

include files

theorem fileName_metadataPath (identity : ProfileIdentity) :
    qt.fileName (metadataPath storageDirectory identity) =
      qt.fileName (profileDirectory storageDirectory identity) ++ slash :: metadataName := by
  rw [metadataPath_eq]
  exact files.fileName_append_ascii _ _ (by simp [Utf8.IsAscii, metadataName, slash])

theorem fileName_statePath (identity : ProfileIdentity) :
    qt.fileName (statePath storageDirectory identity) =
      qt.fileName (profileDirectory storageDirectory identity) ++ slash :: stateName := by
  rw [statePath_eq]
  exact files.fileName_append_ascii _ _ (by simp [Utf8.IsAscii, stateName, slash])

theorem fileName_metadataPath_inj {identity identity' : ProfileIdentity} :
    qt.fileName (metadataPath storageDirectory identity) =
        qt.fileName (metadataPath storageDirectory identity') ↔
      qt.fileName (profileDirectory storageDirectory identity) =
        qt.fileName (profileDirectory storageDirectory identity') := by
  rw [fileName_metadataPath files, fileName_metadataPath files]
  exact List.append_left_inj _

theorem fileName_statePath_inj {identity identity' : ProfileIdentity} :
    qt.fileName (statePath storageDirectory identity) =
        qt.fileName (statePath storageDirectory identity') ↔
      qt.fileName (profileDirectory storageDirectory identity) =
        qt.fileName (profileDirectory storageDirectory identity') := by
  rw [fileName_statePath files, fileName_statePath files]
  exact List.append_left_inj _

theorem fileName_metadataPath_ne_statePath (identity identity' : ProfileIdentity) :
    qt.fileName (metadataPath storageDirectory identity) ≠
      qt.fileName (statePath storageDirectory identity') := by
  rw [fileName_metadataPath files, fileName_statePath files]
  intro same
  have ends := congrArg (fun path => (path.reverse.drop 5).head?) same
  simp only [List.reverse_append, metadataName, stateName] at ends
  simp [slash] at ends

end FileNames

section Objects

variable {qt : QtText} {files : QtFiles qt} {readFaults : ReadFaults files}
variable {writeFaults : WriteFaults} {store store' : FileStore files} {path path' : Bytes}
variable {object : QJsonObject qt.QString}

theorem readObject_congr (same : store (qt.fileName path) = store' (qt.fileName path')) :
    readObject files readFaults store path = readObject files readFaults store' path' := by
  rw [readObject, readObject, same]

theorem writeObject_eq_ok_iff :
    writeObject files writeFaults store path object = (.ok (), store') ↔
      writeFaults = noWriteFaults ∧
        store' = Function.update store (qt.fileName path) (some (files.toJson object)) := by
  obtain ⟨directories, opened, written⟩ := writeFaults
  cases directories <;> cases opened <;> cases written <;>
    simp [writeObject, noWriteFaults, eq_comm]

theorem writeObject_of_ne (other : qt.fileName path' ≠ qt.fileName path) :
    (writeObject files writeFaults store path object).2 (qt.fileName path') =
      store (qt.fileName path') := by
  unfold writeObject
  split
  · rfl
  · split
    · rfl
    · split <;> exact Function.update_of_ne other _ _

theorem readObject_written (distinct : QJsonValue.distinctKeys (.object object)) :
    readObject files (noReadFaults files)
      (Function.update store (qt.fileName path) (some (files.toJson object))) path =
        .ok object := by
  simp [readObject, noReadFaults, files.fromJson_toJson object distinct]

theorem readObject_empty :
    readObject files (noReadFaults files)
      (Function.update store (qt.fileName path) (some files.empty)) path =
        .error .invalidFormat := by
  simp [readObject, noReadFaults, files.fromJson_empty]

theorem metadataToJson_distinctKeys (metadata : ProfileMetadata) :
    QJsonValue.distinctKeys (.object (metadataToJson qt metadata)) := by
  simp [metadataToJson, QJsonValue.distinctKeys, distinctMembers]

theorem stateToJson_distinctKeys (state : ProfileState) :
    QJsonValue.distinctKeys (.object (stateToJson state : QJsonObject qt.QString)) := by
  simp [stateToJson, QJsonValue.distinctKeys, distinctMembers]

end Objects

section RoundTrips

variable {qt : QtText} {files : QtFiles qt} {writeFaults : WriteFaults}
variable {store store' : FileStore files} {storageDirectory : Bytes}

def Supported (version : Int32) : Prop := 0 < version ∧ version ≤ currentSchemaVersion

instance (version : Int32) : Decidable (Supported version) :=
  inferInstanceAs (Decidable (0 < version ∧ version ≤ currentSchemaVersion))

theorem not_supported_iff {version : Int32} :
    ¬ Supported version ↔ version > currentSchemaVersion ∨ version ≤ 0 := by
  rw [Supported, not_and_or, Int32.not_lt, Int32.not_le, or_comm]

theorem jsonToMetadata_metadataToJson {metadata : ProfileMetadata}
    (roundTrips : qt.RoundTrips metadata.description) :
    jsonToMetadata metadata.identity (metadataToJson qt metadata) =
      if Supported metadata.schemaVersion then .ok metadata
      else .error .unsupportedSchemaVersion := by
  have version : (QJsonNumber.finite metadata.schemaVersion.toInt).toInt = metadata.schemaVersion :=
    QJsonNumber.toInt_finite metadata.schemaVersion
  have found : (metadataToJson qt metadata).lookup "schema_version" =
      some (.double (.finite metadata.schemaVersion.toInt)) := rfl
  have described : (metadataToJson qt metadata).lookup "description" =
      some (.string (qt.fromStdString metadata.description)) := rfl
  simp only [jsonToMetadata, found, described, version]
  by_cases supported : Supported metadata.schemaVersion
  · rw [if_pos supported, if_neg (not_supported_iff.not_right.mp supported)]
    rw [QtText.RoundTrips] at roundTrips
    rw [roundTrips]
  · rw [if_neg supported, if_pos (not_supported_iff.mp supported)]

theorem loadMetadata_saveMetadata {metadata : ProfileMetadata}
    (saved : saveMetadata files writeFaults store storageDirectory metadata = (.ok (), store')) :
    loadMetadata files (noReadFaults files) store' storageDirectory metadata.identity =
      jsonToMetadata metadata.identity (metadataToJson qt metadata) := by
  obtain ⟨_, rfl⟩ := writeObject_eq_ok_iff.mp saved
  rw [loadMetadata, readObject_written (metadataToJson_distinctKeys metadata)]

theorem jsonToState_stateToJson {state : ProfileState}
    (roundTrips : ∀ gameId, state.selectedGameId = some gameId → qt.RoundTrips gameId.value) :
    jsonToState (stateToJson state : QJsonObject qt.QString) =
      ⟨state.selectedGameId.filter (·.value ≠ []), [], []⟩ := by
  obtain ⟨selected, enabledPackages, loadOrder⟩ := state
  cases selected with
  | none =>
    have empty : qt.toStdString (qt.fromStdString []) = [] := qt.roundTrips_nil
    simp [jsonToState, stateToJson, empty]
  | some gameId =>
    have same : qt.toStdString (qt.fromStdString gameId.value) = gameId.value :=
      roundTrips gameId rfl
    simp [jsonToState, stateToJson, same, Option.filter_some]

theorem loadState_saveState {identity : ProfileIdentity} {state : ProfileState}
    (saved : saveState files writeFaults store storageDirectory identity state =
      (.ok (), store')) :
    loadState files (noReadFaults files) store' storageDirectory identity =
      .ok (jsonToState (stateToJson state : QJsonObject qt.QString)) := by
  obtain ⟨_, rfl⟩ := writeObject_eq_ok_iff.mp saved
  rw [loadState, readObject_written (stateToJson_distinctKeys state)]

theorem loadMetadata_returns_saved_iff (files : QtFiles qt) (storageDirectory : Bytes)
    (metadata : ProfileMetadata) (writeFaults : WriteFaults) (store store' : FileStore files)
    (saved : saveMetadata files writeFaults store storageDirectory metadata = (.ok (), store'))
    (roundTrips : qt.RoundTrips metadata.description) :
    ((∃ loaded, loadMetadata files (noReadFaults files) store' storageDirectory metadata.identity =
          .ok loaded ∧ loaded.schemaVersion = metadata.schemaVersion ∧
          loaded.description = metadata.description) ↔
        0 < metadata.schemaVersion ∧ metadata.schemaVersion ≤ currentSchemaVersion) ∧
      ((∀ error, loadMetadata files (noReadFaults files) store' storageDirectory
          metadata.identity ≠ .error error) ↔
        0 < metadata.schemaVersion ∧ metadata.schemaVersion ≤ currentSchemaVersion) := by
  rw [loadMetadata_saveMetadata saved, jsonToMetadata_metadataToJson roundTrips]
  change (_ ↔ Supported metadata.schemaVersion) ∧ (_ ↔ Supported metadata.schemaVersion)
  by_cases supported : Supported metadata.schemaVersion
  · simp [supported]
  · simp [supported]

theorem loadMetadata_returns_saved_iff_of_current :
    ∃ identity, ProfileIdentity.create [77] none = .ok identity ∧
      ∃ loaded, loadMetadata plainFiles (noReadFaults plainFiles)
        (saveMetadata plainFiles noWriteFaults (fun _ => none) [] ⟨identity, 1, [100]⟩).2 []
          identity = .ok loaded ∧ loaded.schemaVersion = 1 ∧ loaded.description = [100] := by
  refine ⟨⟨[77], none, by decide⟩, rfl, ?_⟩
  exact (loadMetadata_returns_saved_iff plainFiles [] ⟨_, 1, [100]⟩ noWriteFaults _ _ rfl
    rfl).1.mpr (by decide)

theorem not_loadMetadata_of_default_version :
    ∃ identity, ProfileIdentity.create [77] none = .ok identity ∧
      (saveMetadata plainFiles noWriteFaults (fun _ => none) []
        { identity, description := [100] }).1 = .ok () ∧
      loadMetadata plainFiles (noReadFaults plainFiles)
        (saveMetadata plainFiles noWriteFaults (fun _ => none) []
          { identity, description := [100] }).2 [] identity =
            .error .unsupportedSchemaVersion := by
  refine ⟨⟨[77], none, by decide⟩, rfl, ?_⟩
  decide

theorem loadState_returns_saved_iff (files : QtFiles qt) (storageDirectory : Bytes)
    (identity : ProfileIdentity) (state : ProfileState) (writeFaults : WriteFaults)
    (store store' : FileStore files)
    (saved : saveState files writeFaults store storageDirectory identity state = (.ok (), store'))
    (roundTrips : ∀ gameId, state.selectedGameId = some gameId → qt.RoundTrips gameId.value) :
    loadState files (noReadFaults files) store' storageDirectory identity = .ok state ↔
      state.enabledPackages = [] ∧ state.loadOrder = [] ∧ state.selectedGameId ≠ some ⟨[]⟩ := by
  rw [loadState_saveState saved, jsonToState_stateToJson roundTrips]
  obtain ⟨selected, enabledPackages, loadOrder⟩ := state
  have kept : selected.filter (·.value ≠ []) = selected ↔ selected ≠ some ⟨[]⟩ := by
    cases selected with
    | none => simp
    | some gameId =>
      obtain ⟨value⟩ := gameId
      simp [Option.filter_some]
  simp only [Except.ok.injEq, ProfileState.mk.injEq, kept]
  constructor
  · rintro ⟨selection, rfl, rfl⟩
    exact ⟨rfl, rfl, selection⟩
  · rintro ⟨rfl, rfl, selection⟩
    exact ⟨selection, rfl, rfl⟩

theorem loadState_returns_saved_iff_of_selected :
    ∃ identity, ProfileIdentity.create [77] none = .ok identity ∧
      loadState plainFiles (noReadFaults plainFiles)
        (saveState plainFiles noWriteFaults (fun _ => none) [] identity ⟨some ⟨[103]⟩, [], []⟩).2 []
          identity = .ok ⟨some ⟨[103]⟩, [], []⟩ := by
  refine ⟨⟨[77], none, by decide⟩, rfl, ?_⟩
  refine (loadState_returns_saved_iff plainFiles [] _ ⟨some ⟨[103]⟩, [], []⟩ noWriteFaults _ _ rfl
    ?_).mpr (by decide)
  rintro gameId ⟨rfl⟩
  rfl

theorem not_loadState_returns_saved_of_enabled :
    ∃ identity, ProfileIdentity.create [77] none = .ok identity ∧
      (saveState plainFiles noWriteFaults (fun _ => none) [] identity
        ⟨some ⟨[103]⟩, [⟨[112]⟩], []⟩).1 = .ok () ∧
      loadState plainFiles (noReadFaults plainFiles)
        (saveState plainFiles noWriteFaults (fun _ => none) [] identity
          ⟨some ⟨[103]⟩, [⟨[112]⟩], []⟩).2 [] identity ≠ .ok ⟨some ⟨[103]⟩, [⟨[112]⟩], []⟩ := by
  refine ⟨⟨[77], none, by decide⟩, rfl, ?_⟩
  decide

end RoundTrips

end FastModManager.Infrastructure.JsonProfilePersistence
