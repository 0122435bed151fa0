import FastModManager.Application.InventoryService
import FastModManager.Application.PackageCatalog

namespace FastModManager.Application

open Domain

namespace CatalogInventoryService

def inventoryError : PackageCatalogError → InventoryError
  | .notFound | .ioError => .sourceUnavailable
  | .invalidFormat | .unsupportedSchemaVersion => .corruptMetadata
  | .alreadyExists => .internal

/-- What the progress callback is called with, and the result. The stop token is asked before and
after the catalog is listed. -/
def getInventory (stopRequestedBefore stopRequestedAfter : Bool)
    (catalogResult : Except PackageCatalogError (List InstalledPackage)) :
    List (Int × Bytes) × InventoryResult :=
  if stopRequestedBefore then ([], .error .cancelled)
  else
    let started := [(10, "Reading catalog...".toUTF8.toList)]
    if stopRequestedAfter then (started, .error .cancelled)
    else
      match catalogResult with
      | .error error => (started, .error (inventoryError error))
      | .ok packages => (started ++ [(100, "Catalog loaded.".toUTF8.toList)], .ok packages)

theorem getInventory_loaded_iff (stopRequestedBefore stopRequestedAfter : Bool)
    (catalogResult : Except PackageCatalogError (List InstalledPackage)) :
    (∃ report ∈ (getInventory stopRequestedBefore stopRequestedAfter catalogResult).1,
        report.1 = 100) ↔
      ∃ packages,
        (getInventory stopRequestedBefore stopRequestedAfter catalogResult).2 = .ok packages := by
  cases stopRequestedBefore with
  | true => simp [getInventory]
  | false =>
    cases stopRequestedAfter with
    | true => simp [getInventory]
    | false => cases catalogResult <;> simp [getInventory]

end CatalogInventoryService

end FastModManager.Application
