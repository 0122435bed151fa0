import FastModManager.Domain.Package

namespace FastModManager.Application

open Domain

inductive InventoryError where
  | sourceUnavailable
  | permissionDenied
  | cancelled
  | corruptMetadata
  | internal
  deriving DecidableEq, Repr

abbrev InventoryResult := Except InventoryError (List InstalledPackage)

end FastModManager.Application
