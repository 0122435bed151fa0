import FastModManager.Domain.PackageDependencyGraph
import FastModManager.Foundation.SortAndGroup

namespace FastModManager.Domain

open Foundation

structure PackagePathClaim where
  packageId : PackageId
  packageRelativePath : PackageRelativePath
  gameRelativePath : GameRelativePath
  kind : PackageEntryKind
  deriving DecidableEq, Repr

structure FileOwnershipNode where
  path : GameRelativePath
  claims : List PackagePathClaim
  deriving DecidableEq, Repr

structure PathObstruction where
  ancestorPath : GameRelativePath
  descendantPath : GameRelativePath
  deriving DecidableEq, Repr

inductive FileOwnershipGraphErrorCode where
  | claimPackageNotEnabled
  deriving DecidableEq, Repr

structure FileOwnershipGraphError where
  code : FileOwnershipGraphErrorCode
  packageId : PackageId
  claimIndex : Nat
  deriving DecidableEq, Repr

structure FileOwnershipGraph where
  packageOrder : List PackageId
  claims : List PackagePathClaim
  nodes : List FileOwnershipNode
  exactCollisionPaths : List GameRelativePath
  obstructions : List PathObstruction
  deriving DecidableEq, Repr

namespace FileOwnershipGraph

def isDirectory (claim : PackagePathClaim) : Bool := claim.kind = .directory

def containsNonDirectory (node : FileOwnershipNode) : Bool :=
  node.claims.any fun claim => claim.kind ≠ .directory

def obstructedBy (nodes : List FileOwnershipNode) (ancestor : FileOwnershipNode) :
    List FileOwnershipNode :=
  if ancestor.path.nativeBytes = [] then
    nodes.filter fun descendant => descendant.path.nativeBytes ≠ []
  else
    let descendantPrefix := ancestor.path.nativeBytes ++ [slash]
    let first := lowerBound (fun node => bytesLess node.path.nativeBytes descendantPrefix) nodes
    (nodes.drop first).takeWhile fun node => descendantPrefix.isPrefixOf node.path.nativeBytes

def buildObstructions (nodes : List FileOwnershipNode) : List PathObstruction :=
  (nodes.filter containsNonDirectory).flatMap fun ancestor =>
    (obstructedBy nodes ancestor).map fun descendant => ⟨ancestor.path, descendant.path⟩

structure RankedClaim where
  claim : PackagePathClaim
  rank : Nat
  index : Nat
  deriving DecidableEq, Repr

/-- The loop that rejects claims of packages that are not enabled. The rank found here is
the one the comparison of claims looks up again. -/
def rankClaims (packageRanks : Map PackageId Nat) :
    List (PackagePathClaim × Nat) → Except FileOwnershipGraphError (List RankedClaim)
  | [] => .ok []
  | (claim, index) :: rest =>
    match packageRanks.lookup claim.packageId with
    | none => .error ⟨.claimPackageNotEnabled, claim.packageId, index⟩
    | some rank =>
      match rankClaims packageRanks rest with
      | .error error => .error error
      | .ok ranked => .ok (⟨claim, rank, index⟩ :: ranked)

def claimLess (left right : RankedClaim) : Bool :=
  let leftPath := left.claim.gameRelativePath.nativeBytes
  let rightPath := right.claim.gameRelativePath.nativeBytes
  if leftPath ≠ rightPath then bytesLess leftPath rightPath
  else if left.rank ≠ right.rank then left.rank < right.rank
  else left.index < right.index

def groupNodes (ordered : List RankedClaim) : List FileOwnershipNode :=
  (groupRuns (fun ranked : RankedClaim => ranked.claim.gameRelativePath.nativeBytes) ordered).map
    fun group => ⟨⟨group.1⟩, group.2.map (·.claim)⟩

def isExactCollision (node : FileOwnershipNode) : Bool :=
  node.claims.length > 1 && containsNonDirectory node

def create (packageGraph : PackageDependencyGraph) (claims : List PackagePathClaim) :
    Except FileOwnershipGraphError FileOwnershipGraph :=
  match rankClaims (Map.indexAll packageGraph.resolvedOrder) claims.zipIdx with
  | .error error => .error error
  | .ok ranked =>
    let nodes := groupNodes (sortBy claimLess ranked)
    .ok { packageOrder := packageGraph.resolvedOrder
          claims
          nodes
          exactCollisionPaths := (nodes.filter isExactCollision).map (·.path)
          obstructions := buildObstructions nodes }

end FileOwnershipGraph

end FastModManager.Domain
