import FastModManager.Domain.Package
import Mathlib.Data.List.Nodup

namespace FastModManager.Application

open Domain

inductive PackageCatalogError where
  | alreadyExists
  | notFound
  | invalidFormat
  | unsupportedSchemaVersion
  | ioError
  deriving DecidableEq, Repr

inductive CatalogCall where
  | get (packageId : PackageId)
  | list
  | add (package : InstalledPackage)
  | remove (packageId : PackageId)
  | contains (packageId : PackageId)
  deriving DecidableEq, Repr

inductive CatalogResult where
  | package (result : Except PackageCatalogError InstalledPackage)
  | packages (result : Except PackageCatalogError (List InstalledPackage))
  | done (result : Except PackageCatalogError Unit)
  | flag (result : Except PackageCatalogError Bool)
  deriving DecidableEq

structure Storable (package : InstalledPackage) : Prop where
  id : package.id.value ≠ []
  name : package.metadata.name ≠ []
  somewhere : package.location.stagingPath ≠ none ∨ package.location.objectStoreRef ≠ none
  stagingPath : package.location.stagingPath ≠ some []
  objectStoreRef : package.location.objectStoreRef ≠ some []

instance (package : InstalledPackage) : Decidable (Storable package) :=
  decidable_of_iff (package.id.value ≠ [] ∧ package.metadata.name ≠ [] ∧
    (package.location.stagingPath ≠ none ∨ package.location.objectStoreRef ≠ none) ∧
    package.location.stagingPath ≠ some [] ∧ package.location.objectStoreRef ≠ some [])
    ⟨fun h => ⟨h.1, h.2.1, h.2.2.1, h.2.2.2.1, h.2.2.2.2⟩, fun h => ⟨h.1, h.2, h.3, h.4, h.5⟩⟩

theorem nodup_ids_append {packages : List InstalledPackage} {package : InstalledPackage}
    (distinct : (packages.map (·.id)).Nodup) (fresh : package.id ∉ packages.map (·.id)) :
    ((packages ++ [package]).map (·.id)).Nodup := by
  rw [List.map_append]
  exact distinct.append (List.nodup_singleton _) (List.disjoint_singleton.mpr fresh)

/-- An insertion-ordered map from ids to packages. -/
structure OrderedCatalog where
  packages : List InstalledPackage
  distinct : (packages.map (·.id)).Nodup

namespace OrderedCatalog

def Holds (catalog : OrderedCatalog) (packageId : PackageId) : Prop :=
  packageId ∈ catalog.packages.map (·.id)

instance (catalog : OrderedCatalog) (packageId : PackageId) : Decidable (catalog.Holds packageId) :=
  inferInstanceAs (Decidable (_ ∈ _))

def append (catalog : OrderedCatalog) (package : InstalledPackage)
    (fresh : ¬ catalog.Holds package.id) : OrderedCatalog where
  packages := catalog.packages ++ [package]
  distinct := nodup_ids_append catalog.distinct fresh

def erase (catalog : OrderedCatalog) (packageId : PackageId) : OrderedCatalog where
  packages := catalog.packages.filter fun package => package.id ≠ packageId
  distinct := catalog.distinct.sublist (List.filter_sublist.map _)

def answer (catalog : OrderedCatalog) : CatalogCall → CatalogResult × OrderedCatalog
  | .get packageId =>
    match catalog.packages.find? (·.id = packageId) with
    | some package => (.package (.ok package), catalog)
    | none => (.package (.error .notFound), catalog)
  | .list => (.packages (.ok catalog.packages), catalog)
  | .add package =>
    if Storable package then
      if fresh : catalog.Holds package.id then (.done (.error .alreadyExists), catalog)
      else (.done (.ok ()), catalog.append package fresh)
    else (.done (.error .invalidFormat), catalog)
  | .remove packageId =>
    if catalog.Holds packageId then (.done (.ok ()), catalog.erase packageId)
    else (.done (.error .notFound), catalog)
  | .contains packageId => (.flag (.ok (catalog.Holds packageId)), catalog)

end OrderedCatalog

end FastModManager.Application
