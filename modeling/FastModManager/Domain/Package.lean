import FastModManager.Foundation.LexOrder

namespace FastModManager.Domain

open Foundation

abbrev Bytes := List UInt8

instance uint8LinearOrder : LinearOrder UInt8 where
  le_refl := UInt8.le_refl
  le_trans _ _ _ := UInt8.le_trans
  lt_iff_le_not_ge _ _ := by rw [UInt8.not_le]; exact ⟨fun h => ⟨UInt8.le_of_lt h, h⟩, And.right⟩
  le_antisymm _ _ := UInt8.le_antisymm
  le_total := UInt8.le_total
  toDecidableLE := inferInstance

def slash : UInt8 := 0x2F

/-- Comparison of native bytes as `unsigned char`. -/
def bytesLess (left right : Bytes) : Bool := lexLess left right

theorem bytesLess_iff (left right : Bytes) : bytesLess left right = true ↔ left < right :=
  lexLess_iff left right

theorem bytesLess_eq_false (left right : Bytes) : bytesLess left right = false ↔ right ≤ left :=
  lexLess_eq_false left right

structure PackageId where
  value : Bytes
  deriving DecidableEq, Repr

structure PackageLocation where
  stagingPath : Option Bytes
  objectStoreRef : Option Bytes
  deriving DecidableEq, Repr

structure PackageMetadata where
  name : Bytes
  version : Bytes
  source : Bytes
  deriving DecidableEq, Repr

structure InstalledPackage where
  id : PackageId
  metadata : PackageMetadata
  location : PackageLocation
  deriving DecidableEq, Repr

structure PackageRelativePath where
  nativeBytes : Bytes
  deriving DecidableEq, Repr

@[ext] structure GameRelativePath where
  nativeBytes : Bytes
  deriving DecidableEq, Repr

theorem GameRelativePath.nativeBytes_inj {left right : GameRelativePath} :
    left.nativeBytes = right.nativeBytes ↔ left = right :=
  ⟨GameRelativePath.ext, congrArg nativeBytes⟩

structure PackageRootMapping where
  packageRoot : PackageRelativePath
  gameRoot : GameRelativePath
  deriving DecidableEq, Repr

inductive PackageEntryKind where
  | regularFile
  | directory
  | symbolicLink
  deriving DecidableEq, Repr

structure PackageLayoutEntry where
  relativePath : PackageRelativePath
  kind : PackageEntryKind
  deriving DecidableEq, Repr

structure PackagePlan where
  packageId : PackageId
  packageLocation : PackageLocation
  entries : List PackageLayoutEntry
  rootMappings : List PackageRootMapping
  deriving DecidableEq, Repr

end FastModManager.Domain
