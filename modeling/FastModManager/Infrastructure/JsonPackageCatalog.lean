import FastModManager.Application.PackageCatalog
import FastModManager.Infrastructure.Qt

namespace FastModManager.Infrastructure.JsonPackageCatalog

open Domain Application

variable (qt : QtText)

section Paths

def hexDigits : List UInt8 :=
  [0x30, 0x31, 0x32, 0x33, 0x34, 0x35, 0x36, 0x37, 0x38, 0x39, 0x61, 0x62, 0x63, 0x64, 0x65, 0x66]

def hexDigit (nibble : UInt8) : UInt8 := hexDigits.getD nibble.toNat 0

def encodeByte (byte : UInt8) : Bytes := [hexDigit (byte >>> 4), hexDigit (byte &&& 0x0F)]

def encodePath (path : Bytes) : qt.QString := qt.fromLatin1 (path.flatMap encodeByte)

def decodeHexDigit (digit : UInt8) : Option UInt8 :=
  if 0x30 ≤ digit ∧ digit ≤ 0x39 then some (digit - 0x30)
  else if 0x61 ≤ digit ∧ digit ≤ 0x66 then some (digit - 0x61 + 10)
  else if 0x41 ≤ digit ∧ digit ≤ 0x46 then some (digit - 0x41 + 10)
  else none

def decodeDigits : Bytes → Option Bytes
  | high :: low :: rest =>
    match decodeHexDigit high, decodeHexDigit low with
    | some high, some low => (decodeDigits rest).map ((high <<< 4 ||| low) :: ·)
    | _, _ => none
  | _ => some []

def decodePath (encodedPath : qt.QString) : Except PackageCatalogError Bytes :=
  let encoded := qt.toLatin1 encodedPath
  if encoded = [] ∨ encoded.length % 2 ≠ 0 then .error .invalidFormat
  else
    match decodeDigits encoded with
    | none => .error .invalidFormat
    | some nativePath => .ok nativePath

end Paths

section Packages

def validatePackage (package : InstalledPackage) : Bool :=
  package.id.value ≠ [] && package.metadata.name ≠ [] &&
    (package.location.stagingPath.isSome || package.location.objectStoreRef.isSome) &&
    package.location.stagingPath ≠ some [] && package.location.objectStoreRef ≠ some []

def locationToJson (location : PackageLocation) : QJsonObject qt.QString :=
  (match location.stagingPath with
    | some stagingPath => [("staging_path_hex", .string (encodePath qt stagingPath))]
    | none => []) ++
  match location.objectStoreRef with
    | some objectStoreRef => [("object_store_ref", .string (qt.fromStdString objectStoreRef))]
    | none => []

def metadataToJson (metadata : PackageMetadata) : QJsonObject qt.QString :=
  [("name", .string (qt.fromStdString metadata.name)),
    ("version", .string (qt.fromStdString metadata.version)),
    ("source", .string (qt.fromStdString metadata.source))]

def packageToJson (package : InstalledPackage) : QJsonObject qt.QString :=
  [("id", .string (qt.fromStdString package.id.value)),
    ("metadata", .object (metadataToJson qt package.metadata)),
    ("location", .object (locationToJson qt package.location))]

def catalogToJson (packages : List InstalledPackage) : QJsonObject qt.QString :=
  [("schema_version", .double (.finite 1)),
    ("packages", .array (packages.map fun package => .object (packageToJson qt package)))]

variable {qt}

def stringMember (object : QJsonObject qt.QString) (key : String) : Option qt.QString :=
  match object.lookup key with
  | some (.string text) => some text
  | _ => none

def objectMember (object : QJsonObject qt.QString) (key : String) :
    Option (QJsonObject qt.QString) :=
  match object.lookup key with
  | some (.object members) => some members
  | _ => none

def optionalMember (object : QJsonObject qt.QString) (key : String) :
    Except PackageCatalogError (Option qt.QString) :=
  match object.lookup key with
  | none => .ok none
  | some (.string text) => .ok (some text)
  | some _ => .error .invalidFormat

def jsonToMetadata (object : QJsonObject qt.QString) : Except PackageCatalogError PackageMetadata :=
  match stringMember object "name", stringMember object "version", stringMember object "source" with
  | some name, some version, some source =>
    if qt.isEmpty name then .error .invalidFormat
    else .ok ⟨qt.toStdString name, qt.toStdString version, qt.toStdString source⟩
  | _, _, _ => .error .invalidFormat

def jsonToLocation (object : QJsonObject qt.QString) :
    Except PackageCatalogError PackageLocation := do
  let stagingPath ← optionalMember object "staging_path_hex"
  let objectStoreRef ← optionalMember object "object_store_ref"
  if (stagingPath.isNone && objectStoreRef.isNone) || objectStoreRef.any qt.isEmpty then
    .error .invalidFormat
  else
    let decodedPath ← stagingPath.mapM (decodePath qt)
    return ⟨decodedPath, objectStoreRef.map qt.toStdString⟩

def jsonToPackage (object : QJsonObject qt.QString) :
    Except PackageCatalogError InstalledPackage := do
  match stringMember object "id", objectMember object "metadata", objectMember object "location" with
  | some id, some metadataObject, some locationObject =>
    if qt.isEmpty id then .error .invalidFormat
    else
      let metadata ← jsonToMetadata metadataObject
      let location ← jsonToLocation locationObject
      let package : InstalledPackage := ⟨⟨qt.toStdString id⟩, metadata, location⟩
      if validatePackage package then return package else .error .invalidFormat
  | _, _, _ => .error .invalidFormat

end Packages

section File

/-- Which of the file operations of a call fail. -/
structure FileFaults where
  existence : Bool
  openForReading : Bool
  read : Bool
  createDirectories : Bool
  openForWriting : Bool
  write : Bool
  commit : Bool
  deriving DecidableEq, Repr

def noFaults : FileFaults := ⟨false, false, false, false, false, false, false⟩

variable {qt} (json : QtJson qt) (faults : FileFaults)

def loadPackages : List (QJsonValue qt.QString) → List InstalledPackage →
    Except PackageCatalogError (List InstalledPackage)
  | [], packages => .ok packages
  | .object item :: rest, packages =>
    match jsonToPackage item with
    | .error _ => .error .invalidFormat
    | .ok package =>
      if packages.any (·.id = package.id) then .error .invalidFormat
      else loadPackages rest (packages ++ [package])
  | _ :: _, _ => .error .invalidFormat

def checkSchemaVersion (root : QJsonObject qt.QString) : Except PackageCatalogError Unit :=
  match root.lookup "schema_version" with
  | some (.double (.finite value)) =>
    if value.den ≠ 1 ∨ value ≤ 0 then .error .invalidFormat
    else if value ≠ 1 then .error .unsupportedSchemaVersion
    else .ok ()
  | _ => .error .invalidFormat

def loadDocument (root : QJsonObject qt.QString) :
    Except PackageCatalogError (List InstalledPackage) := do
  checkSchemaVersion root
  match root.lookup "packages" with
  | some (.array items) => loadPackages items []
  | _ => .error .invalidFormat

/-- The file is `none` while it does not exist. -/
def load (file : Option json.QByteArray) : Except PackageCatalogError (List InstalledPackage) :=
  if faults.existence then .error .ioError
  else
    match file with
    | none => .ok []
    | some contents =>
      if faults.openForReading || faults.read then .error .ioError
      else
        match json.fromJson contents with
        | some (.object root) => loadDocument root
        | _ => .error .invalidFormat

/-- The result and the file afterwards: only a commit replaces it. -/
def save (file : Option json.QByteArray) (packages : List InstalledPackage) :
    Except PackageCatalogError Unit × Option json.QByteArray :=
  if packages.all validatePackage then
    if faults.createDirectories then (.error .ioError, file)
    else if faults.openForWriting || faults.write || faults.commit then (.error .ioError, file)
    else (.ok (), some (json.toJson (catalogToJson qt packages)))
  else (.error .invalidFormat, file)

def get (file : Option json.QByteArray) (packageId : PackageId) :
    Except PackageCatalogError InstalledPackage :=
  match load json faults file with
  | .error error => .error error
  | .ok packages =>
    match packages.find? (·.id = packageId) with
    | none => .error .notFound
    | some package => .ok package

def list (file : Option json.QByteArray) : Except PackageCatalogError (List InstalledPackage) :=
  load json faults file

def add (file : Option json.QByteArray) (package : InstalledPackage) :
    Except PackageCatalogError Unit × Option json.QByteArray :=
  if validatePackage package then
    match load json faults file with
    | .error error => (.error error, file)
    | .ok packages =>
      if packages.any (·.id = package.id) then (.error .alreadyExists, file)
      else save json faults file (packages ++ [package])
  else (.error .invalidFormat, file)

def remove (file : Option json.QByteArray) (packageId : PackageId) :
    Except PackageCatalogError Unit × Option json.QByteArray :=
  match load json faults file with
  | .error error => (.error error, file)
  | .ok packages =>
    if packages.any (·.id = packageId) then
      save json faults file (packages.filter (·.id ≠ packageId))
    else (.error .notFound, file)

def contains (file : Option json.QByteArray) (packageId : PackageId) :
    Except PackageCatalogError Bool :=
  match load json faults file with
  | .error error => .error error
  | .ok packages => .ok (packages.any (·.id = packageId))

def answer (file : Option json.QByteArray) : CatalogCall → CatalogResult × Option json.QByteArray
  | .get packageId => (.package (get json faults file packageId), file)
  | .list => (.packages (list json faults file), file)
  | .add package =>
    let (result, file) := add json faults file package
    (.done result, file)
  | .remove packageId =>
    let (result, file) := remove json faults file packageId
    (.done result, file)
  | .contains packageId => (.flag (contains json faults file packageId), file)

end File

end FastModManager.Infrastructure.JsonPackageCatalog
