import FastModManager.Domain.ConflictResolution

namespace FastModManager.Domain

open Foundation

structure NamespaceSourceReference where
  packageId : PackageId
  packageRelativePath : PackageRelativePath
  packageLocation : PackageLocation
  deriving DecidableEq, Repr

structure NamespacePackagePlanRecord where
  lookupPackageId : PackageId
  packagePlan : PackagePlan
  deriving DecidableEq, Repr

inductive CompiledNamespaceEntryOrigin where
  | singleClaim
  | mergedDirectories
  | priorityWinner
  | syntheticDirectory
  deriving DecidableEq, Repr

structure CompiledNamespaceEntry where
  path : GameRelativePath
  kind : PackageEntryKind
  origin : CompiledNamespaceEntryOrigin
  selectedClaim : Option PackagePathClaim
  sourceReference : Option NamespaceSourceReference
  deriving DecidableEq, Repr

inductive NamespaceCompilationErrorCode where
  | blockingConflicts
  | invalidResolvedDecision
  deriving DecidableEq, Repr

structure NamespaceCompilationError where
  code : NamespaceCompilationErrorCode
  deriving DecidableEq, Repr

inductive NamespaceSourceMappingErrorCode where
  | missingPackage
  | duplicatePackage
  | mismatchedPackageId
  | missingSourceEntry
  | invalidEntryKind
  deriving DecidableEq, Repr

structure NamespaceSourceMappingError where
  code : NamespaceSourceMappingErrorCode
  packageId : Option PackageId
  relatedPackageId : Option PackageId
  entryPath : Option GameRelativePath
  packageRelativePath : Option PackageRelativePath
  deriving DecidableEq, Repr

structure SourceMappedNamespace where
  entries : List CompiledNamespaceEntry
  deriving DecidableEq, Repr

structure CompiledNamespace where
  entries : List CompiledNamespaceEntry
  deriving DecidableEq, Repr

inductive NamespaceEntryExplanationKind where
  | uncontestedClaim
  | mergedDirectory
  | priorityWinner
  | syntheticAncestorDirectory
  deriving DecidableEq, Repr

structure NamespaceEntryExplanation where
  path : GameRelativePath
  kind : NamespaceEntryExplanationKind
  contenders : List PackagePathClaim
  selectedClaim : Option PackagePathClaim
  deriving DecidableEq, Repr

structure NamespaceCompilationResult where
  compiledNamespace : CompiledNamespace
  conflictReport : ConflictResolutionReport
  explanations : List NamespaceEntryExplanation
  deriving DecidableEq, Repr

structure CompiledEntryData where
  path : GameRelativePath
  kind : PackageEntryKind
  origin : CompiledNamespaceEntryOrigin
  selectedClaim : Option PackagePathClaim
  explanationKind : NamespaceEntryExplanationKind
  contenders : List PackagePathClaim
  explanationSelectedClaim : Option PackagePathClaim
  deriving DecidableEq, Repr

namespace CompiledEntryData

def less (left right : CompiledEntryData) : Bool :=
  bytesLess left.path.nativeBytes right.path.nativeBytes

def entry (data : CompiledEntryData) : CompiledNamespaceEntry :=
  ⟨data.path, data.kind, data.origin, data.selectedClaim, none⟩

def explanation (data : CompiledEntryData) : NamespaceEntryExplanation :=
  ⟨data.path, data.explanationKind, data.contenders, data.explanationSelectedClaim⟩

end CompiledEntryData

namespace NamespaceCompilationResult

open FileOwnershipGraph (isDirectory)

def invalidDecision : Except NamespaceCompilationError CompiledEntryData :=
  .error ⟨.invalidResolvedDecision⟩

def compileDecision (decision : ExactPathDecision) :
    Except NamespaceCompilationError CompiledEntryData :=
  match decision.kind, decision.selectedClaim with
  | .singleClaim, none => invalidDecision
  | .singleClaim, some selectedClaim =>
    if decision.claims.length ≠ 1 ∨ selectedClaim.gameRelativePath ≠ decision.path then
      invalidDecision
    else if selectedClaim.kind = .directory then
      .ok { path := decision.path
            kind := .directory
            origin := .singleClaim
            selectedClaim := none
            explanationKind := .uncontestedClaim
            contenders := decision.claims
            explanationSelectedClaim := some selectedClaim }
    else
      .ok { path := decision.path
            kind := selectedClaim.kind
            origin := .singleClaim
            selectedClaim := some selectedClaim
            explanationKind := .uncontestedClaim
            contenders := decision.claims
            explanationSelectedClaim := some selectedClaim }
  | .mergedDirectories, selectedClaim =>
    if decision.claims = [] ∨ selectedClaim.isSome ∨ !decision.claims.all isDirectory then
      invalidDecision
    else
      .ok { path := decision.path
            kind := .directory
            origin := .mergedDirectories
            selectedClaim := none
            explanationKind := .mergedDirectory
            contenders := decision.claims
            explanationSelectedClaim := none }
  | .priorityWinner, none => invalidDecision
  | .priorityWinner, some selectedClaim =>
    if selectedClaim.gameRelativePath ≠ decision.path ∨ selectedClaim.kind = .directory then
      invalidDecision
    else
      .ok { path := decision.path
            kind := selectedClaim.kind
            origin := .priorityWinner
            selectedClaim := some selectedClaim
            explanationKind := .priorityWinner
            contenders := decision.claims
            explanationSelectedClaim := some selectedClaim }
  | .unresolved, _ => invalidDecision

def separatorsFrom : Nat → Bytes → List Nat
  | _, [] => []
  | index, byte :: rest =>
    if byte = slash then index :: separatorsFrom (index + 1) rest
    else separatorsFrom (index + 1) rest

def ancestorsOf (path : Bytes) : List Bytes :=
  ((separatorsFrom 0 path).filter (· ≠ 0)).map path.take

def syntheticAncestors (decisions : List ExactPathDecision) : List GameRelativePath :=
  let occupiedPaths := (decisions.map (·.path.nativeBytes)).toFinset
  (insertedInto occupiedPaths (decisions.flatMap fun decision =>
    ancestorsOf decision.path.nativeBytes)).map GameRelativePath.mk

def syntheticData (ancestor : GameRelativePath) : CompiledEntryData where
  path := ancestor
  kind := .directory
  origin := .syntheticDirectory
  selectedClaim := none
  explanationKind := .syntheticAncestorDirectory
  contenders := []
  explanationSelectedClaim := none

def compile (report : ConflictResolutionReport) :
    Except NamespaceCompilationError NamespaceCompilationResult :=
  if report.hasBlockingConflicts then .error ⟨.blockingConflicts⟩
  else
    match report.decisions.mapM compileDecision with
    | .error error => .error error
    | .ok decided =>
      let ancestors := syntheticAncestors report.decisions
      let compilationData := sortBy CompiledEntryData.less (decided ++ ancestors.map syntheticData)
      .ok { compiledNamespace := ⟨compilationData.map CompiledEntryData.entry⟩
            conflictReport := report
            explanations := compilationData.map CompiledEntryData.explanation }

end NamespaceCompilationResult

/-- The location of a package, and the kind of each path it lists, or nothing where it
lists a path with different kinds. -/
structure PackageSourceData where
  location : PackageLocation
  entryKinds : Map Bytes (Option PackageEntryKind)

abbrev PackageSourceIndex := Map PackageId PackageSourceData

namespace CompiledNamespace

def sourceMappingError {α : Type} (code : NamespaceSourceMappingErrorCode)
    (packageId relatedPackageId : Option PackageId) (entryPath : Option GameRelativePath)
    (packageRelativePath : Option PackageRelativePath) : Except NamespaceSourceMappingError α :=
  .error ⟨code, packageId, relatedPackageId, entryPath, packageRelativePath⟩

def indexEntryKind (entryKinds : Map Bytes (Option PackageEntryKind))
    (entry : PackageLayoutEntry) : Map Bytes (Option PackageEntryKind) :=
  let key := entry.relativePath.nativeBytes
  let (emplaced, inserted) := entryKinds.emplace key (some entry.kind)
  match emplaced.lookup key with
  | some (some kind) =>
    if !inserted ∧ kind ≠ entry.kind then emplaced.insert key none else emplaced
  | _ => emplaced

def packageSourceData (plan : PackagePlan) : PackageSourceData :=
  ⟨plan.packageLocation, plan.entries.foldl indexEntryKind ∅⟩

def indexPackageSources : List NamespacePackagePlanRecord → PackageSourceIndex →
    Except NamespaceSourceMappingError PackageSourceIndex
  | [], packages => .ok packages
  | record :: rest, packages =>
    let lookupId := record.lookupPackageId
    let plan := record.packagePlan
    if lookupId ≠ plan.packageId then
      sourceMappingError .mismatchedPackageId (some lookupId) (some plan.packageId) none none
    else
      match packages.emplace lookupId (packageSourceData plan) with
      | (_, false) => sourceMappingError .duplicatePackage (some lookupId) none none none
      | (packages, true) => indexPackageSources rest packages

def mapEntry (packages : PackageSourceIndex) (entry : CompiledNamespaceEntry) :
    Except NamespaceSourceMappingError CompiledNamespaceEntry :=
  if entry.kind = .directory then
    if entry.selectedClaim.isSome ∨ entry.sourceReference.isSome then
      sourceMappingError .invalidEntryKind none none (some entry.path) none
    else .ok entry
  else
    match entry.selectedClaim with
    | none => sourceMappingError .invalidEntryKind none none (some entry.path) none
    | some selected =>
      if selected.kind ≠ entry.kind ∨ selected.kind = .directory then
        sourceMappingError .invalidEntryKind none none (some entry.path) none
      else
        match packages.lookup selected.packageId with
        | none =>
          sourceMappingError .missingPackage (some selected.packageId) none (some entry.path)
            (some selected.packageRelativePath)
        | some package =>
          match package.entryKinds.lookup selected.packageRelativePath.nativeBytes with
          | none =>
            sourceMappingError .missingSourceEntry (some selected.packageId) none (some entry.path)
              (some selected.packageRelativePath)
          | some none =>
            sourceMappingError .invalidEntryKind (some selected.packageId) none (some entry.path)
              (some selected.packageRelativePath)
          | some (some kind) =>
            if kind ≠ entry.kind ∨ kind = .directory then
              sourceMappingError .invalidEntryKind (some selected.packageId) none (some entry.path)
                (some selected.packageRelativePath)
            else
              .ok { entry with
                sourceReference := some
                  ⟨selected.packageId, selected.packageRelativePath, package.location⟩ }

def compile (report : ConflictResolutionReport) :
    Except NamespaceCompilationError CompiledNamespace :=
  match NamespaceCompilationResult.compile report with
  | .error error => .error error
  | .ok result => .ok result.compiledNamespace

def mapSources (compiled : CompiledNamespace)
    (packageSnapshot : List NamespacePackagePlanRecord) :
    Except NamespaceSourceMappingError SourceMappedNamespace :=
  match indexPackageSources packageSnapshot ∅ with
  | .error error => .error error
  | .ok packages =>
    match compiled.entries.mapM (mapEntry packages) with
    | .error error => .error error
    | .ok mappedEntries => .ok ⟨mappedEntries⟩

end CompiledNamespace

end FastModManager.Domain
