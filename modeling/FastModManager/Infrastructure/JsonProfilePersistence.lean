import FastModManager.Application.ProfileRepository
import FastModManager.Infrastructure.NativePath
import FastModManager.Infrastructure.Qt
import Mathlib.Logic.Function.Basic

namespace FastModManager.Infrastructure.JsonProfilePersistence

open Domain Application

def currentSchemaVersion : Int32 := 1

section Paths

variable (storageDirectory : Bytes) (identity : ProfileIdentity)

def metadataName : Bytes :=
  [0x6D, 0x65, 0x74, 0x61, 0x64, 0x61, 0x74, 0x61, 0x2E, 0x6A, 0x73, 0x6F, 0x6E]

def stateName : Bytes := [0x73, 0x74, 0x61, 0x74, 0x65, 0x2E, 0x6A, 0x73, 0x6F, 0x6E]

def profileDirectory : Bytes := NativePath.append storageDirectory identity.name

def metadataPath : Bytes :=
  NativePath.append (profileDirectory storageDirectory identity) metadataName

def statePath : Bytes := NativePath.append (profileDirectory storageDirectory identity) stateName

end Paths

section Files

variable {qt : QtText} (files : QtFiles qt)

/-- The contents of the files that exist, by the names under which `QFile` opens them. -/
abbrev FileStore := Bytes → Option files.QByteArray

/-- How reading goes wrong: the file is not opened, or other bytes than its contents are read. -/
structure ReadFaults where
  openForReading : Bool
  readAll : Option files.QByteArray

def noReadFaults : ReadFaults files := ⟨false, none⟩

structure WriteFaults where
  createDirectories : Bool
  openForWriting : Bool
  write : Bool
  deriving DecidableEq, Repr

def noWriteFaults : WriteFaults := ⟨false, false, false⟩

variable (readFaults : ReadFaults files) (writeFaults : WriteFaults) (store : FileStore files)

def readObject (path : Bytes) : Except ProfilePersistenceError (QJsonObject qt.QString) :=
  match store (qt.fileName path) with
  | none => .error .fileNotFound
  | some contents =>
    if readFaults.openForReading then .error .accessDenied
    else
      match files.fromJson (readFaults.readAll.getD contents) with
      | some (.object object) => .ok object
      | _ => .error .invalidFormat

def writeObject (path : Bytes) (object : QJsonObject qt.QString) :
    Except ProfilePersistenceError Unit × FileStore files :=
  if writeFaults.createDirectories then (.error .writeFailed, store)
  else if writeFaults.openForWriting then (.error .accessDenied, store)
  else if writeFaults.write then
    (.error .writeFailed, Function.update store (qt.fileName path) (some files.empty))
  else (.ok (), Function.update store (qt.fileName path) (some (files.toJson object)))

variable (qt) in
def metadataToJson (metadata : ProfileMetadata) : QJsonObject qt.QString :=
  [("schema_version", .double (.finite metadata.schemaVersion.toInt)),
    ("description", .string (qt.fromStdString metadata.description))]

/-- No selected game is written as the empty string. -/
def stateToJson (state : ProfileState) : QJsonObject qt.QString :=
  [("selected_game_id", .string
    (match state.selectedGameId with
      | some gameId => qt.fromStdString gameId.value
      | none => qt.fromStdString []))]

def jsonToMetadata (identity : ProfileIdentity) (object : QJsonObject qt.QString) :
    Except ProfilePersistenceError ProfileMetadata :=
  match object.lookup "schema_version" with
  | some (.double number) =>
    let version := number.toInt
    if version > currentSchemaVersion ∨ version ≤ 0 then .error .unsupportedSchemaVersion
    else
      match object.lookup "description" with
      | some (.string description) => .ok ⟨identity, version, qt.toStdString description⟩
      | _ => .error .invalidFormat
  | _ => .error .invalidFormat

def jsonToState (object : QJsonObject qt.QString) : ProfileState :=
  match object.lookup "selected_game_id" with
  | some (.string text) =>
    let selectedGameId := qt.toStdString text
    ⟨if selectedGameId = [] then none else some ⟨selectedGameId⟩, [], []⟩
  | _ => ⟨none, [], []⟩

variable (storageDirectory : Bytes)

def loadMetadata (identity : ProfileIdentity) : Except ProfilePersistenceError ProfileMetadata :=
  match readObject files readFaults store (metadataPath storageDirectory identity) with
  | .error error => .error error
  | .ok object => jsonToMetadata identity object

def saveMetadata (metadata : ProfileMetadata) :
    Except ProfilePersistenceError Unit × FileStore files :=
  writeObject files writeFaults store (metadataPath storageDirectory metadata.identity)
    (metadataToJson qt metadata)

def loadState (identity : ProfileIdentity) : Except ProfilePersistenceError ProfileState :=
  match readObject files readFaults store (statePath storageDirectory identity) with
  | .error error => .error error
  | .ok object => .ok (jsonToState object)

def saveState (identity : ProfileIdentity) (state : ProfileState) :
    Except ProfilePersistenceError Unit × FileStore files :=
  writeObject files writeFaults store (statePath storageDirectory identity) (stateToJson state)

def save : ProfileSave → Except ProfilePersistenceError Unit × FileStore files
  | .metadata metadata => saveMetadata files writeFaults store storageDirectory metadata
  | .state identity state => saveState files writeFaults store storageDirectory identity state

end Files

end FastModManager.Infrastructure.JsonProfilePersistence
