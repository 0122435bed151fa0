import FastModManager.Domain.StagingPolicy
import FastModManager.Foundation.Checked
import FastModManager.Infrastructure.JsonPackageCatalog
import FastModManager.Infrastructure.NativePath
import Mathlib.Logic.Function.Basic

namespace FastModManager.Infrastructure.StagingRepository

open Foundation Domain

structure QCryptographicHash where
  result : Bytes → Bytes
  length_result : ∀ data, (result data).length = 32

inductive ReadOutcome where
  | delivers (extra : Nat)
  | fails
  deriving DecidableEq, Repr

inductive WriteOutcome where
  | complete
  | short (count : Nat)
  | fails
  deriving DecidableEq, Repr

/-- What goes wrong before the first chunk. -/
structure SetupFaults where
  fileSize : Bool
  openInput : Bool
  createDirectories : Bool
  openOutput : Bool
  deriving DecidableEq, Repr

def noSetupFaults : SetupFaults := ⟨false, false, false, false⟩

/-- The directories below the staging root, with the files in them. -/
abbrev StagingArea := Bytes → Option (Bytes → Option Bytes)

section Files

def bufferSize : Nat := 1024 * 1024

/-- `QFile::read` of what remains of a file: at least one byte unless it fails. -/
def read (outcome : ReadOutcome) (remaining : Bytes) : Bytes :=
  match outcome with
  | .delivers extra => remaining.take (min (extra + 1) bufferSize)
  | .fails => []

/-- The bytes that `QFile::write` writes, and the number that it returns. -/
def write (outcome : WriteOutcome) (buffer : Bytes) : Bytes × Int :=
  match outcome with
  | .complete => (buffer, buffer.length)
  | .short count =>
    let written := buffer.take (min count (buffer.length - 1))
    (written, written.length)
  | .fails => ([], -1)

def createDirectory (area : StagingArea) (directory : Bytes) : StagingArea :=
  Function.update area directory (some ((area directory).getD fun _ => none))

def writeFile (area : StagingArea) (directory name contents : Bytes) : StagingArea :=
  Function.update area directory
    ((area directory).map fun files => Function.update files name (some contents))

def removeDirectory (area : StagingArea) (directory : Bytes) : StagingArea :=
  Function.update area directory none

end Files

section Copy

structure CopyState where
  round : Nat
  remaining : Bytes
  hashed : Bytes
  output : Bytes
  totalRead : Nat
  reports : List (Nat × Nat)
  deriving DecidableEq, Repr

inductive CopyEnd where
  | copied (state : CopyState)
  | shortWrite (state : CopyState)
  deriving DecidableEq, Repr

variable (reads : Nat → ReadOutcome) (writes : Nat → WriteOutcome)
variable (requireChecksum progress : Bool) (fileSize : Nat)

def copyStep (state : CopyState) : Checked (CopyState ⊕ CopyEnd) :=
  if state.remaining = [] then return .inr (.copied state)
  else
    let buffer := read (reads state.round) state.remaining
    if buffer = [] then return .inr (.copied state)
    else
      let hashed := if requireChecksum then state.hashed ++ buffer else state.hashed
      let (bytes, written) := write (writes state.round) buffer
      if written ≠ buffer.length then
        return .inr (.shortWrite { state with hashed, output := state.output ++ bytes })
      else
        let totalRead := state.totalRead + buffer.length
        return .inl
          { round := state.round + 1
            remaining := state.remaining.drop buffer.length
            hashed
            output := state.output ++ bytes
            totalRead
            reports := if progress then state.reports ++ [(totalRead, fileSize)] else state.reports }

def copy (source : Bytes) : Checked CopyEnd :=
  iterate (copyStep reads writes requireChecksum progress source.length) (source.length + 1)
    ⟨0, source, [], [], 0, []⟩

end Copy

section Stage

def toLower (byte : UInt8) : UInt8 := if 0x41 ≤ byte ∧ byte ≤ 0x5A then byte + 0x20 else byte

def toHex (data : Bytes) : Bytes := data.flatMap JsonPackageCatalog.encodeByte

variable (faults : SetupFaults) (contents : Option Bytes) (sourcePath : Bytes)
variable (policy : StagingPolicy)

def checkSource : Except ImportError Bytes :=
  match contents with
  | none => .error .fileNotFound
  | some source =>
    if faults.fileSize then .error .accessDenied
    else if source.length > policy.maxArchiveSizeBytes.toNat then .error .exceedsSizeLimit
    else
      let extension := (NativePath.extension sourcePath).map toLower
      if !policy.allowedExtensions.any (extension = ·) then .error .unsupportedFormat
      else if faults.openInput then .error .accessDenied
      else .ok source

variable (hash : QCryptographicHash) (reads : Nat → ReadOutcome) (writes : Nat → WriteOutcome)
variable (progress : Bool) (stagingRoot uniqueId : Bytes) (area : StagingArea)

def destinationPath : Bytes :=
  NativePath.append (NativePath.append stagingRoot uniqueId) (NativePath.filename sourcePath)

def stagedPackage (state : CopyState) : InstalledPackage :=
  let finalChecksum := if policy.requireChecksum then toHex (hash.result state.hashed) else []
  { id := ⟨uniqueId⟩
    metadata :=
      { name := NativePath.stem sourcePath
        version := [0x31, 0x2E, 0x30, 0x2E, 0x30]
        source := [0x73, 0x74, 0x61, 0x67, 0x65, 0x64] }
    location :=
      { stagingPath := some (destinationPath sourcePath stagingRoot uniqueId)
        objectStoreRef := if finalChecksum = [] then none else some finalChecksum } }

/-- The answer, the staging area and the progress reports. -/
def stagePackage : Checked (Except ImportError InstalledPackage × StagingArea × List (Nat × Nat)) :=
  match checkSource faults contents sourcePath policy with
  | .error error => return (.error error, area, [])
  | .ok source =>
    if faults.createDirectories then return (.error .stagingFailed, area, [])
    else
      let created := createDirectory area uniqueId
      if faults.openOutput then
        return (.error .stagingFailed, removeDirectory created uniqueId, [])
      else do
        match ← copy reads writes policy.requireChecksum progress source with
        | .shortWrite state =>
          return (.error .stagingFailed, removeDirectory created uniqueId, state.reports)
        | .copied state =>
          return (.ok (stagedPackage sourcePath policy hash stagingRoot uniqueId state),
            writeFile created uniqueId (NativePath.filename sourcePath) state.output, state.reports)

end Stage

end FastModManager.Infrastructure.StagingRepository
