import FastModManager.Domain.Package
import FastModManager.Foundation.OrderedMap
import Mathlib.Algebra.GroupWithZero.Nat
import Mathlib.Data.Finset.Max
import Mathlib.Data.List.Sort

namespace FastModManager.Domain

open Foundation

structure PackageDependency where
  dependentPackage : PackageId
  requiredPackage : PackageId
  deriving DecidableEq, Repr

structure PackageOrderConstraint where
  beforePackage : PackageId
  afterPackage : PackageId
  deriving DecidableEq, Repr

inductive PackageGraphErrorCode where
  | duplicateEnabledPackage
  | dependentPackageNotEnabled
  | requiredPackageNotEnabled
  | orderingPackageNotEnabled
  | selfDependency
  | selfOrdering
  | cycle
  deriving DecidableEq, Repr

structure PackageGraphError where
  code : PackageGraphErrorCode
  packageIds : List PackageId
  deriving DecidableEq, Repr

structure PackageDependencyGraph where
  enabledPackages : List PackageId
  dependencies : List PackageDependency
  orderingConstraints : List PackageOrderConstraint
  resolvedOrder : List PackageId
  deriving DecidableEq, Repr

namespace PackageDependencyGraph

abbrev PackageIndex := Nat
abbrev PackageIndexes := Map PackageId PackageIndex
abbrev AdjacencyList := List (List PackageIndex)

inductive VisitState where
  | unvisited
  | visiting
  | visited
  deriving DecidableEq, Repr

structure VisitFrame where
  package : PackageIndex
  nextChild : Nat
  deriving DecidableEq, Repr

/-- `std::numeric_limits<PackageIndex>::max()`. -/
def noPosition : Nat := 2 ^ 64 - 1

/-- The containers of the cycle search. The back of `path` is its last element, the
back of `stack` its head. -/
structure SearchState where
  states : List VisitState
  positions : List Nat
  path : List PackageIndex
  stack : List VisitFrame
  deriving DecidableEq, Repr

def SearchState.enter (state : SearchState) (package : PackageIndex) : Checked SearchState := do
  let states ← checkedSet state.states package .visiting
  let positions ← checkedSet state.positions package state.path.length
  return { states, positions, path := state.path ++ [package], stack := ⟨package, 0⟩ :: state.stack }

inductive SearchOutcome where
  | exhausted (state : SearchState)
  | cycle (packages : List PackageId)
  deriving DecidableEq, Repr

/-- The body of the inner loop of `findCycle`. -/
def visitStep (enabledPackages : List PackageId) (adjacency : AdjacencyList) (state : SearchState) :
    Checked (SearchState ⊕ SearchOutcome) := do
  match state.stack with
  | [] => return .inr (.exhausted state)
  | frame :: frames =>
    let children ← checkedAt adjacency frame.package
    if frame.nextChild = children.length then
      let states ← checkedSet state.states frame.package .visited
      let positions ← checkedSet state.positions frame.package noPosition
      return .inl { states, positions, path := state.path.dropLast, stack := frames }
    else
      let child ← checkedAt children frame.nextChild
      let advanced := { state with stack := { frame with nextChild := frame.nextChild + 1 } :: frames }
      match ← checkedAt state.states child with
      | .unvisited => return .inl (← advanced.enter child)
      | .visiting =>
        let cycleStart ← checkedAt state.positions child
        let cycle ← (state.path.drop cycleStart ++ [child]).mapM (checkedAt enabledPackages)
        return .inr (.cycle cycle)
      | .visited => return .inl advanced

/-- Each frame is left once and each of its children is looked at once. -/
def visitFuel (adjacency : AdjacencyList) : Nat :=
  (adjacency.map fun children => children.length + 1).sum + 1

def searchFrom (enabledPackages : List PackageId) (adjacency : AdjacencyList) :
    List PackageIndex → SearchState → Checked (Option (List PackageId))
  | [], _ => return none
  | start :: starts, state => do
    match ← checkedAt state.states start with
    | .unvisited =>
      let entered ← state.enter start
      match ← iterate (visitStep enabledPackages adjacency) (visitFuel adjacency) entered with
      | .cycle packages => return some packages
      | .exhausted finished => searchFrom enabledPackages adjacency starts finished
    | _ => searchFrom enabledPackages adjacency starts state

def findCycle (enabledPackages : List PackageId) (adjacency : AdjacencyList) :
    Checked (Option (List PackageId)) :=
  searchFrom enabledPackages adjacency (List.range enabledPackages.length)
    { states := List.replicate enabledPackages.length .unvisited
      positions := List.replicate enabledPackages.length noPosition
      path := []
      stack := [] }

structure RelationData where
  edges : Finset (PackageIndex × PackageIndex)
  adjacency : AdjacencyList
  indegrees : List Nat

def addEdge (source target : PackageIndex) (data : RelationData) : Checked RelationData := do
  if (source, target) ∈ data.edges then return data
  else
    let children ← checkedAt data.adjacency source
    let adjacency ← checkedSet data.adjacency source (children ++ [target])
    let indegree ← checkedAt data.indegrees target
    let indegrees ← checkedSet data.indegrees target (indegree + 1)
    return { edges := insert (source, target) data.edges, adjacency, indegrees }

/-- Decrement of a `std::size_t`. -/
def decrement (count : Nat) : Nat := if count = 0 then 2 ^ 64 - 1 else count - 1

structure ResolveState where
  ready : Finset PackageIndex
  indegrees : List Nat
  resolvedOrder : List PackageId

def releaseDependent (state : Finset PackageIndex × List Nat) (dependent : PackageIndex) :
    Checked (Finset PackageIndex × List Nat) := do
  let indegree ← checkedAt state.2 dependent
  let indegrees ← checkedSet state.2 dependent (decrement indegree)
  return (if decrement indegree = 0 then insert dependent state.1 else state.1, indegrees)

/-- The body of the loop of `resolveOrder`. -/
def resolveStep (enabledPackages : List PackageId) (adjacency : AdjacencyList)
    (state : ResolveState) : Checked (ResolveState ⊕ List PackageId) := do
  if nonempty : state.ready.Nonempty then
    let package := state.ready.min' nonempty
    let resolved ← checkedAt enabledPackages package
    let (ready, indegrees) ← (← checkedAt adjacency package).foldlM releaseDependent
      (state.ready.erase package, state.indegrees)
    return .inl { ready, indegrees, resolvedOrder := state.resolvedOrder ++ [resolved] }
  else return .inr state.resolvedOrder

def resolveOrder (enabledPackages : List PackageId) (adjacency : AdjacencyList)
    (indegrees : List Nat) : Checked (List PackageId) :=
  iterate (resolveStep enabledPackages adjacency) (enabledPackages.length + 1)
    { ready := (Finset.range indegrees.length).filter fun index => indegrees[index]? = some 0
      indegrees
      resolvedOrder := [] }

def indexPackages : List (PackageId × PackageIndex) → PackageIndexes →
    Except PackageGraphError PackageIndexes
  | [], indexes => .ok indexes
  | (package, index) :: rest, indexes =>
    match indexes.emplace package index with
    | (indexes, true) => indexPackages rest indexes
    | (_, false) => .error ⟨.duplicateEnabledPackage, [package]⟩

structure RelationErrors where
  firstNotEnabled : PackageGraphErrorCode
  secondNotEnabled : PackageGraphErrorCode
  selfRelation : PackageGraphErrorCode

/-- The common checks of dependencies and ordering constraints. -/
def relate (errors : RelationErrors) (indexes : PackageIndexes) (first second : PackageId) :
    Except PackageGraphError (PackageIndex × PackageIndex) :=
  match indexes.lookup first with
  | none => .error ⟨errors.firstNotEnabled, [first]⟩
  | some firstIndex =>
    match indexes.lookup second with
    | none => .error ⟨errors.secondNotEnabled, [second]⟩
    | some secondIndex =>
      if firstIndex = secondIndex then .error ⟨errors.selfRelation, [first]⟩
      else .ok (firstIndex, secondIndex)

def addDependency (indexes : PackageIndexes) (data : RelationData)
    (dependency : PackageDependency) :
    Checked (Except PackageGraphError RelationData) :=
  match relate ⟨.dependentPackageNotEnabled, .requiredPackageNotEnabled, .selfDependency⟩ indexes
      dependency.dependentPackage dependency.requiredPackage with
  | .error error => .ok (.error error)
  | .ok (dependent, required) => .ok <$> addEdge required dependent data

def addConstraint (indexes : PackageIndexes) (data : RelationData)
    (constraint : PackageOrderConstraint) : Checked (Except PackageGraphError RelationData) :=
  match relate ⟨.orderingPackageNotEnabled, .orderingPackageNotEnabled, .selfOrdering⟩ indexes
      constraint.beforePackage constraint.afterPackage with
  | .error error => .ok (.error error)
  | .ok (before, after) => .ok <$> addEdge before after data

def addAll {δ : Type} (add : RelationData → δ → Checked (Except PackageGraphError RelationData)) :
    List δ → RelationData → Checked (Except PackageGraphError RelationData)
  | [], data => .ok (.ok data)
  | declaration :: rest, data => do
    match ← add data declaration with
    | .error error => return .error error
    | .ok data => addAll add rest data

def create (enabledPackages : List PackageId) (dependencies : List PackageDependency)
    (orderingConstraints : List PackageOrderConstraint) :
    Checked (Except PackageGraphError PackageDependencyGraph) := do
  match indexPackages enabledPackages.zipIdx ∅ with
  | .error error => return .error error
  | .ok indexes =>
    let empty : RelationData :=
      { edges := ∅
        adjacency := List.replicate enabledPackages.length []
        indegrees := List.replicate enabledPackages.length 0 }
    match ← addAll (addDependency indexes) dependencies empty with
    | .error error => return .error error
    | .ok data =>
      match ← addAll (addConstraint indexes) orderingConstraints data with
      | .error error => return .error error
      | .ok data =>
        let adjacency := data.adjacency.map (List.insertionSort (· ≤ ·))
        match ← findCycle enabledPackages adjacency with
        | some cycle => return .error ⟨.cycle, cycle⟩
        | none =>
          let resolvedOrder ← resolveOrder enabledPackages adjacency data.indegrees
          return .ok { enabledPackages, dependencies, orderingConstraints, resolvedOrder }

end PackageDependencyGraph

end FastModManager.Domain
