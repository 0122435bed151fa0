import FastModManager.Domain.FileOwnershipGraph

namespace FastModManager.Domain

open Foundation

inductive ConflictPolicyErrorCode where
  | duplicatePackage
  | unknownPackage
  | missingPackage
  deriving DecidableEq, Repr

structure ConflictPolicyError where
  code : ConflictPolicyErrorCode
  packageId : PackageId
  priorityIndex : Option Nat
  deriving DecidableEq, Repr

structure ConflictResolutionPolicy where
  priorityOrder : List PackageId
  deriving DecidableEq, Repr

namespace ConflictResolutionPolicy

def seePackages (graphPackages : Finset PackageId) :
    List (PackageId × Nat) → Finset PackageId → Except ConflictPolicyError (Finset PackageId)
  | [], seenPackages => .ok seenPackages
  | (packageId, index) :: rest, seenPackages =>
    if packageId ∈ seenPackages then .error ⟨.duplicatePackage, packageId, some index⟩
    else if packageId ∉ graphPackages then .error ⟨.unknownPackage, packageId, some index⟩
    else seePackages graphPackages rest (insert packageId seenPackages)

def create (graph : FileOwnershipGraph) (priorityOrder : List PackageId) :
    Except ConflictPolicyError ConflictResolutionPolicy :=
  match seePackages graph.packageOrder.toFinset priorityOrder.zipIdx ∅ with
  | .error error => .error error
  | .ok seenPackages =>
    match graph.packageOrder.find? (· ∉ seenPackages) with
    | some missingPackage => .error ⟨.missingPackage, missingPackage, none⟩
    | none => .ok ⟨priorityOrder⟩

end ConflictResolutionPolicy

inductive ExactPathDecisionKind where
  | singleClaim
  | mergedDirectories
  | priorityWinner
  | unresolved
  deriving DecidableEq, Repr

structure ExactPathDecision where
  path : GameRelativePath
  kind : ExactPathDecisionKind
  claims : List PackagePathClaim
  selectedClaim : Option PackagePathClaim
  deriving DecidableEq, Repr

inductive ConflictDiagnosticSeverity where
  | warning
  | error
  deriving DecidableEq, Repr

inductive ConflictDiagnosticCode where
  | exactPathWinnerSelected
  | mixedEntryKinds
  | ambiguousHighestPriorityClaim
  | pathObstruction
  deriving DecidableEq, Repr

inductive ConflictRemediation where
  | reviewPackagePriority
  | correctPackageMapping
  | correctPackageLayout
  deriving DecidableEq, Repr

structure ConflictDiagnostic where
  code : ConflictDiagnosticCode
  severity : ConflictDiagnosticSeverity
  primaryPath : GameRelativePath
  relatedPath : Option GameRelativePath
  claims : List PackagePathClaim
  selectedClaim : Option PackagePathClaim
  remediation : ConflictRemediation
  deriving DecidableEq, Repr

structure ConflictResolutionReport where
  policy : ConflictResolutionPolicy
  decisions : List ExactPathDecision
  diagnostics : List ConflictDiagnostic
  hasBlockingConflicts : Bool
  deriving DecidableEq, Repr

namespace ConflictResolutionReport

open FileOwnershipGraph (isDirectory)

/-- The local variables that the loops of `create` fill. -/
structure Draft where
  decisions : List ExactPathDecision
  diagnostics : List ConflictDiagnostic
  hasBlockingConflicts : Bool
  deriving DecidableEq, Repr

namespace Draft

def empty : Draft := ⟨[], [], false⟩

def addDecision (draft : Draft) (node : FileOwnershipNode) (kind : ExactPathDecisionKind)
    (selectedClaim : Option PackagePathClaim) : Draft :=
  { draft with decisions := draft.decisions ++ [⟨node.path, kind, node.claims, selectedClaim⟩] }

def addDiagnostic (draft : Draft) (diagnostic : ConflictDiagnostic) : Draft :=
  { draft with diagnostics := draft.diagnostics ++ [diagnostic] }

def block (draft : Draft) : Draft := { draft with hasBlockingConflicts := true }

end Draft

/-- The winner so far, its package's rank, and how many claims of that rank were seen. -/
structure Selection where
  selectedClaim : Option PackagePathClaim
  selectedRank : Nat
  selectedPackageClaimCount : Nat
  deriving DecidableEq, Repr

def selectClaim (packageRanks : Map PackageId Nat) (selection : Selection)
    (claim : PackagePathClaim) : Checked Selection := do
  let rank ← packageRanks.checkedAt claim.packageId
  if selection.selectedClaim = none ∨ rank > selection.selectedRank then
    return ⟨some claim, rank, 1⟩
  else if rank = selection.selectedRank then
    return { selection with selectedPackageClaimCount := selection.selectedPackageClaimCount + 1 }
  else return selection

def unresolved (draft : Draft) (node : FileOwnershipNode) (code : ConflictDiagnosticCode) : Draft :=
  ((draft.addDecision node .unresolved none).addDiagnostic
    { code
      severity := .error
      primaryPath := node.path
      relatedPath := none
      claims := node.claims
      selectedClaim := none
      remediation := .correctPackageMapping }).block

def resolveContest (packageRanks : Map PackageId Nat) (draft : Draft) (node : FileOwnershipNode) :
    Checked Draft := do
  let selection ← node.claims.foldlM (selectClaim packageRanks) ⟨none, 0, 0⟩
  if selection.selectedPackageClaimCount > 1 then
    return unresolved draft node .ambiguousHighestPriorityClaim
  else
    match selection.selectedClaim with
    | none => .error .nullDereference
    | some selectedClaim =>
      return (draft.addDecision node .priorityWinner (some selectedClaim)).addDiagnostic
        { code := .exactPathWinnerSelected
          severity := .warning
          primaryPath := node.path
          relatedPath := none
          claims := node.claims
          selectedClaim := some selectedClaim
          remediation := .reviewPackagePriority }

def resolveNode (packageRanks : Map PackageId Nat) (draft : Draft) (node : FileOwnershipNode) :
    Checked Draft :=
  match node.claims with
  | [claim] => return draft.addDecision node .singleClaim (some claim)
  | _ =>
    if node.claims.all isDirectory then return draft.addDecision node .mergedDirectories none
    else if node.claims.any isDirectory then return unresolved draft node .mixedEntryKinds
    else resolveContest packageRanks draft node

def indexNodes (nodes : List FileOwnershipNode) : Map Bytes FileOwnershipNode :=
  Map.emplaceAll ∅ (nodes.map fun node => (node.path.nativeBytes, node))

def reportObstruction (nodesByPath : Map Bytes FileOwnershipNode) (draft : Draft)
    (obstruction : PathObstruction) : Checked Draft := do
  let ancestor ← nodesByPath.checkedAt obstruction.ancestorPath.nativeBytes
  let descendant ← nodesByPath.checkedAt obstruction.descendantPath.nativeBytes
  return (draft.addDiagnostic
    { code := .pathObstruction
      severity := .error
      primaryPath := obstruction.ancestorPath
      relatedPath := some obstruction.descendantPath
      claims := ancestor.claims ++ descendant.claims
      selectedClaim := none
      remediation := .correctPackageLayout }).block

def create (graph : FileOwnershipGraph) (priorityOrder : List PackageId) :
    Checked (Except ConflictPolicyError ConflictResolutionReport) :=
  match ConflictResolutionPolicy.create graph priorityOrder with
  | .error error => return .error error
  | .ok policy => do
    let packageRanks := Map.indexAll policy.priorityOrder
    let resolved ← graph.nodes.foldlM (resolveNode packageRanks) Draft.empty
    let reported ← graph.obstructions.foldlM (reportObstruction (indexNodes graph.nodes)) resolved
    return .ok { policy
                 decisions := reported.decisions
                 diagnostics := reported.diagnostics
                 hasBlockingConflicts := reported.hasBlockingConflicts }

end ConflictResolutionReport

end FastModManager.Domain
