import FastModManager.Domain.Package
import Mathlib.Data.List.Infix

namespace FastModManager.Core

open Domain

inductive PathError where
  | absoluteNotAllowed
  | traversalNotAllowed
  | invalidCharacters
  deriving DecidableEq, Repr

namespace PathNormalizer

def backslash : UInt8 := 0x5C

def colon : UInt8 := 0x3A

def dot : UInt8 := 0x2E

def dotDot : Bytes := [dot, dot]

def isAlpha (byte : UInt8) : Bool := (0x41 ≤ byte && byte ≤ 0x5A) || (0x61 ≤ byte && byte ≤ 0x7A)

def startsWithDrive : Bytes → Bool
  | first :: second :: _ => isAlpha first && second == colon
  | _ => false

def replaceBackslashes (rawPath : Bytes) : Bytes :=
  rawPath.map fun byte => if byte = backslash then slash else byte

def addSegment (cleaned segment : Bytes) : Bytes :=
  if segment ≠ [] ∧ segment ≠ [dot] then
    (if cleaned ≠ [] then cleaned ++ [slash] else cleaned) ++ segment
  else cleaned

def normalizeArchiveEntry (rawPath : Bytes) : Except PathError Bytes :=
  if rawPath = [] then .ok []
  else
    let normalized := replaceBackslashes rawPath
    if normalized.head? = some slash then .error .absoluteNotAllowed
    else if startsWithDrive normalized then .error .absoluteNotAllowed
    else if normalized = dotDot ∨ dotDot ++ [slash] <+: normalized ∨ slash :: dotDot <:+ normalized ∨
        slash :: (dotDot ++ [slash]) <:+: normalized then
      .error .traversalNotAllowed
    else .ok ((normalized.splitOn slash).foldl addSegment [])

end PathNormalizer

end FastModManager.Core
