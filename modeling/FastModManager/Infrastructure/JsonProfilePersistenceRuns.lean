import FastModManager.Application.ProfileShelf
import FastModManager.Infrastructure.JsonProfilePersistenceEffects

namespace FastModManager.Infrastructure.JsonProfilePersistence

open Foundation Domain Application

def WriteFaults.outcome (writeFaults : WriteFaults) : SaveOutcome :=
  if writeFaults.createDirectories then .refused .writeFailed
  else if writeFaults.openForWriting then .refused .accessDenied
  else if writeFaults.write then .torn
  else .kept

section Files

variable {qt : QtText} (files : QtFiles qt) (storageDirectory : Bytes)

inductive ProfileEvent where
  | save (writeFaults : WriteFaults) (call : ProfileSave)
  | loadMetadata (readFaults : ReadFaults files) (identity : ProfileIdentity)
  | loadState (readFaults : ReadFaults files) (identity : ProfileIdentity)

def objectIn (bytes : files.QByteArray) :
    Except ProfilePersistenceError (QJsonObject qt.QString) :=
  match files.fromJson bytes with
  | some (.object object) => .ok object
  | _ => .error .invalidFormat

/-- A load that reads other bytes than those of the file answers what these bytes say. -/
def ReadFaults.outcome {files : QtFiles qt} {α : Type} (readFaults : ReadFaults files)
    (decode : QJsonObject qt.QString → Except ProfilePersistenceError α) : LoadOutcome α :=
  if readFaults.openForReading then .denied
  else
    match readFaults.readAll with
    | none => .held
    | some bytes => .replaced ((objectIn files bytes).bind decode)

def ProfileEvent.call {files : QtFiles qt} : ProfileEvent files → ProfileCall
  | .save writeFaults call => .save writeFaults.outcome call
  | .loadMetadata readFaults identity =>
    .loadMetadata (readFaults.outcome (jsonToMetadata identity)) identity
  | .loadState readFaults identity =>
    .loadState (readFaults.outcome (.ok <| jsonToState ·)) identity

def attempt (store : FileStore files) : ProfileEvent files → ProfileResult × FileStore files
  | .save writeFaults call =>
    let (result, store) := save files writeFaults store storageDirectory call
    (.done result, store)
  | .loadMetadata readFaults identity =>
    (.metadata (loadMetadata files readFaults store storageDirectory identity), store)
  | .loadState readFaults identity =>
    (.state (loadState files readFaults store storageDirectory identity), store)

/-- The name under which the files of a profile are found. -/
def shelfName (qt : QtText) (storageDirectory : Bytes) (identity : ProfileIdentity) : Bytes :=
  qt.fileName (profileDirectory storageDirectory identity)

def recode (qt : QtText) (text : Bytes) : Bytes := qt.toStdString (qt.fromStdString text)

def contents {α : Type} (toObject : α → QJsonObject qt.QString) : Place α → Option files.QByteArray
  | .free => none
  | .torn => some files.empty
  | .kept record => some (files.toJson (toObject record))

structure Shelved (store : FileStore files) (shelf : ProfileShelf Bytes) : Prop where
  metadata : ∀ identity, store (qt.fileName (metadataPath storageDirectory identity)) =
    contents files (metadataToJson qt) (shelf.metadata (shelfName qt storageDirectory identity))
  state : ∀ identity, store (qt.fileName (statePath storageDirectory identity)) =
    contents files stateToJson (shelf.state (shelfName qt storageDirectory identity))

section Objects

variable {files} {store : FileStore files} {path : Bytes} {α : Type}
  {toObject : α → QJsonObject qt.QString} {place : Place α}

variable {β : Type} (readFaults : ReadFaults files)
  (decode : QJsonObject qt.QString → Except ProfilePersistenceError β)

theorem readObject_of_stored {bytes : files.QByteArray}
    (stored : store (qt.fileName path) = some bytes) :
    (readObject files readFaults store path).bind decode =
      (readFaults.outcome decode).result ((objectIn files bytes).bind decode) := by
  obtain ⟨denied, delivered⟩ := readFaults
  simp only [readObject, stored, ReadFaults.outcome]
  cases denied with
  | true => rfl
  | false => cases delivered <;> rfl

theorem readObject_of_contents
    (distinct : ∀ record, QJsonValue.distinctKeys (.object (toObject record)))
    (stored : store (qt.fileName path) = contents files toObject place) :
    (readObject files readFaults store path).bind decode =
      place.read (readFaults.outcome decode) (decode <| toObject ·) := by
  cases place with
  | free =>
    simp only [readObject, stored, contents, Place.read]
    rfl
  | torn =>
    rw [readObject_of_stored readFaults decode stored, objectIn, files.fromJson_empty]
    rfl
  | kept record =>
    rw [readObject_of_stored readFaults decode stored, objectIn,
      files.fromJson_toJson _ (distinct record)]
    rfl

theorem writeObject_of_contents (writeFaults : WriteFaults) (record : α)
    (stored : store (qt.fileName path) = contents files toObject place) :
    writeObject files writeFaults store path (toObject record) =
      (writeFaults.outcome.result, Function.update store (qt.fileName path)
        (contents files toObject (place.write record writeFaults.outcome))) := by
  obtain ⟨directories, opened, written⟩ := writeFaults
  cases directories with
  | true => simp [writeObject, WriteFaults.outcome, SaveOutcome.result, Place.write, ← stored]
  | false =>
    cases opened with
    | true => simp [writeObject, WriteFaults.outcome, SaveOutcome.result, Place.write, ← stored]
    | false => cases written <;> rfl

end Objects

section Steps

theorem jsonToMetadata_written (identity : ProfileIdentity) (record : ProfileMetadata) :
    jsonToMetadata identity (metadataToJson qt record) =
      ProfileShelf.readMetadata (recode qt) (decide <| Supported ·) identity record := by
  have version : (QJsonNumber.finite record.schemaVersion.toInt).toInt = record.schemaVersion :=
    QJsonNumber.toInt_finite record.schemaVersion
  have found : (metadataToJson qt record).lookup "schema_version" =
      some (.double (.finite record.schemaVersion.toInt)) := rfl
  have described : (metadataToJson qt record).lookup "description" =
      some (.string (qt.fromStdString record.description)) := rfl
  simp only [jsonToMetadata, found, described, version, ProfileShelf.readMetadata, recode]
  by_cases supported : Supported record.schemaVersion
  · rw [if_neg (not_supported_iff.not_right.mp supported), if_pos (decide_eq_true supported)]
  · rw [if_pos (not_supported_iff.mp supported), if_neg (by simp [supported])]

theorem jsonToState_written (record : ProfileState) :
    jsonToState (stateToJson record : QJsonObject qt.QString) =
      ProfileShelf.readState (recode qt) record := by
  obtain ⟨selected, enabledPackages, loadOrder⟩ := record
  cases selected with
  | none =>
    have empty : qt.toStdString (qt.fromStdString []) = [] := qt.roundTrips_nil
    simp [jsonToState, stateToJson, empty, ProfileShelf.readState]
  | some gameId =>
    by_cases empty : qt.toStdString (qt.fromStdString gameId.value) = [] <;>
      simp [jsonToState, stateToJson, ProfileShelf.readState, recode, empty, Option.filter_some]

variable {files storageDirectory} {store : FileStore files} {shelf : ProfileShelf Bytes}
  {readFaults : ReadFaults files}

theorem loadMetadata_eq_bind (identity : ProfileIdentity) :
    JsonProfilePersistence.loadMetadata files readFaults store storageDirectory identity =
      (readObject files readFaults store (metadataPath storageDirectory identity)).bind
        (jsonToMetadata identity) := by
  rw [JsonProfilePersistence.loadMetadata]
  cases readObject files readFaults store (metadataPath storageDirectory identity) <;> rfl

theorem loadState_eq_bind (identity : ProfileIdentity) :
    JsonProfilePersistence.loadState files readFaults store storageDirectory identity =
      (readObject files readFaults store (statePath storageDirectory identity)).bind
        (.ok <| jsonToState ·) := by
  rw [JsonProfilePersistence.loadState]
  cases readObject files readFaults store (statePath storageDirectory identity) <;> rfl

theorem Shelved.empty : Shelved files storageDirectory (fun _ => none) .empty :=
  ⟨fun _ => rfl, fun _ => rfl⟩

theorem Shelved.setMetadata (shelved : Shelved files storageDirectory store shelf)
    (profile : ProfileIdentity) (place : Place ProfileMetadata) :
    Shelved files storageDirectory
      (Function.update store (qt.fileName (metadataPath storageDirectory profile))
        (contents files (metadataToJson qt) place))
      (shelf.setMetadata (shelfName qt storageDirectory profile) place) where
  metadata identity := by
    have sameFile : qt.fileName (metadataPath storageDirectory identity) =
        qt.fileName (metadataPath storageDirectory profile) ↔
          shelfName qt storageDirectory identity = shelfName qt storageDirectory profile :=
      fileName_metadataPath_inj files storageDirectory
    simp only [ProfileShelf.setMetadata_metadata, Function.update_apply, sameFile]
    by_cases same : shelfName qt storageDirectory identity = shelfName qt storageDirectory profile
    · rw [if_pos same, if_pos same]
    · rw [if_neg same, if_neg same, shelved.metadata]
  state identity := by
    rw [ProfileShelf.setMetadata_state, Function.update_of_ne, shelved.state]
    exact (fileName_metadataPath_ne_statePath files storageDirectory profile identity).symm

theorem Shelved.setState (shelved : Shelved files storageDirectory store shelf)
    (profile : ProfileIdentity) (place : Place ProfileState) :
    Shelved files storageDirectory
      (Function.update store (qt.fileName (statePath storageDirectory profile))
        (contents files stateToJson place))
      (shelf.setState (shelfName qt storageDirectory profile) place) where
  metadata identity := by
    rw [ProfileShelf.setState_metadata, Function.update_of_ne, shelved.metadata]
    exact fileName_metadataPath_ne_statePath files storageDirectory identity profile
  state identity := by
    have sameFile : qt.fileName (statePath storageDirectory identity) =
        qt.fileName (statePath storageDirectory profile) ↔
          shelfName qt storageDirectory identity = shelfName qt storageDirectory profile :=
      fileName_statePath_inj files storageDirectory
    simp only [ProfileShelf.setState_state, Function.update_apply, sameFile]
    by_cases same : shelfName qt storageDirectory identity = shelfName qt storageDirectory profile
    · rw [if_pos same, if_pos same]
    · rw [if_neg same, if_neg same, shelved.state]

theorem Shelved.simulates (shelved : Shelved files storageDirectory store shelf)
    (event : ProfileEvent files) :
    let answer := ProfileShelf.answer (shelfName qt storageDirectory) (recode qt)
      (decide <| Supported ·) shelf event.call
    (attempt files storageDirectory store event).1 = answer.1 ∧
      Shelved files storageDirectory (attempt files storageDirectory store event).2 answer.2 := by
  cases event with
  | save writeFaults call =>
    cases call with
    | metadata saved =>
      have written := writeObject_of_contents writeFaults saved (shelved.metadata saved.identity)
      simp only [attempt, save, JsonProfilePersistence.saveMetadata, written]
      exact ⟨rfl, shelved.setMetadata saved.identity _⟩
    | state profile saved =>
      have written := writeObject_of_contents writeFaults saved (shelved.state profile)
      simp only [attempt, save, JsonProfilePersistence.saveState, written]
      exact ⟨rfl, shelved.setState profile _⟩
  | loadMetadata readFaults identity =>
    refine ⟨?_, shelved⟩
    have read := readObject_of_contents readFaults (jsonToMetadata identity)
      metadataToJson_distinctKeys (shelved.metadata identity)
    simp only [jsonToMetadata_written] at read
    exact congrArg ProfileResult.metadata ((loadMetadata_eq_bind identity).trans read)
  | loadState readFaults identity =>
    refine ⟨?_, shelved⟩
    have read := readObject_of_contents readFaults (.ok <| jsonToState ·)
      stateToJson_distinctKeys (shelved.state identity)
    simp only [jsonToState_written] at read
    exact congrArg ProfileResult.state ((loadState_eq_bind identity).trans read)

end Steps

end Files

end FastModManager.Infrastructure.JsonProfilePersistence
