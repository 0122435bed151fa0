import FastModManager.Core.PathNormalizer
import FastModManager.Domain.VirtualTree

namespace FastModManager.Infrastructure.LibArchiveReader

open Foundation Domain

inductive ArchiveError where
  | ioError
  | invalidFormat
  | corruptHeader
  | unsupportedFilter
  deriving DecidableEq, Repr

structure ArchiveEntry where
  pathname : Option Bytes
  isDirectory : Bool
  size : Int64
  deriving DecidableEq, Repr

/-- What `archive_read_next_header` returns before the end of the archive. -/
inductive ArchiveHeader where
  | ok (entry : ArchiveEntry)
  | warn (entry : ArchiveEntry)
  | failed
  deriving DecidableEq, Repr

def segmentsOf (path : Bytes) : List Bytes :=
  (path.splitOn slash).filter fun segment =>
    segment ≠ [] && segment ≠ [Core.PathNormalizer.dot] && segment ≠ Core.PathNormalizer.dotDot

/-- A node that is there already becomes a directory at most. -/
def revisited (isLast isDirectory : Bool) (node : VirtualNode) : VirtualNode :=
  if isLast && isDirectory then { node with isDirectory := true } else node

def created (isLast isDirectory : Bool) (size : UInt64) (segment : Bytes) : VirtualNode :=
  { name := segment
    isDirectory := if isLast then isDirectory else true
    size := if isLast && !isDirectory then size else 0
    children := [] }

def insertSegments (isDirectory : Bool) (size : UInt64) : List Bytes → VirtualNode → VirtualNode
  | [], current => current
  | segment :: rest, current =>
    let isLast := rest.isEmpty
    { current with
      children := KeyedList.upsert VirtualNode.name segment
        (fun node => insertSegments isDirectory size rest (revisited isLast isDirectory node))
        (insertSegments isDirectory size rest (created isLast isDirectory size segment))
        current.children }

def insertIntoTree (tree : VirtualTree) (path : Bytes) (isDirectory : Bool) (size : UInt64) :
    VirtualTree :=
  { root := insertSegments isDirectory size (segmentsOf path) tree.root }

def readEntries (tree : VirtualTree) : List ArchiveHeader → Except ArchiveError VirtualTree
  | [] => .ok tree
  | .failed :: _ => .error .corruptHeader
  | .ok entry :: headers | .warn entry :: headers =>
    match entry.pathname with
    | none => readEntries tree headers
    | some pathname =>
      match Core.PathNormalizer.normalizeArchiveEntry pathname with
      | .error _ => .error .invalidFormat
      | .ok normalized =>
        readEntries (insertIntoTree tree normalized entry.isDirectory entry.size.toUInt64) headers

/-- `opened` is whether the archive file can be opened. -/
def readTree (opened : Bool) (headers : List ArchiveHeader) : Except ArchiveError VirtualTree :=
  if opened then readEntries {} headers else .error .ioError

end FastModManager.Infrastructure.LibArchiveReader
