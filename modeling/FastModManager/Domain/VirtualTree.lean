import FastModManager.Domain.Package
import FastModManager.Foundation.KeyedList

namespace FastModManager.Domain

open Foundation

structure VirtualNode where
  name : Bytes
  isDirectory : Bool := false
  size : UInt64 := 0
  children : List VirtualNode
  deriving Repr

structure VirtualTree where
  root : VirtualNode := { name := [], isDirectory := true, size := 0, children := [] }
  deriving Repr

namespace VirtualNode

inductive Everywhere (P : VirtualNode → Prop) : VirtualNode → Prop
  | intro {node : VirtualNode} (here : P node) (below : ∀ child ∈ node.children, Everywhere P child) :
      Everywhere P node

def DistinctNames (node : VirtualNode) : Prop := (node.children.map name).Nodup

def find : List Bytes → VirtualNode → Option VirtualNode
  | [], node => some node
  | first :: path, node => (node.children.find? (·.name = first)).bind (find path)

theorem find_append {rest : List Bytes} : ∀ {path : List Bytes} {node : VirtualNode},
    node.find (path ++ rest) = (node.find path).bind (find rest) := by
  intro path
  induction path with
  | nil => intro node; rfl
  | cons first path ih =>
    intro node
    rw [List.cons_append, find, find, Option.bind_assoc]
    congr 1
    funext child
    exact ih

theorem everywhere_iff_find {P : VirtualNode → Prop} {node : VirtualNode}
    (distinct : Everywhere DistinctNames node) :
    Everywhere P node ↔ ∀ path found, node.find path = some found → P found := by
  constructor
  · intro holds path
    induction path generalizing node with
    | nil =>
      rintro found ⟨rfl⟩
      obtain ⟨here, _⟩ := holds
      exact here
    | cons first path ih =>
      intro found reached
      obtain ⟨child, isChild, reached⟩ := Option.bind_eq_some_iff.mp reached
      obtain ⟨_, below⟩ := holds
      obtain ⟨_, distinctBelow⟩ := distinct
      have member := List.mem_of_find?_eq_some isChild
      exact ih (distinctBelow child member) (below child member) found reached
  · intro holds
    induction distinct with
    | intro here _ ih =>
      refine ⟨holds [] _ rfl, fun child member => ih child member fun path found reached => ?_⟩
      apply holds (child.name :: path) found
      rw [find, KeyedList.find?_key_of_mem here member]
      exact reached

inductive Leads : VirtualNode → List Bytes → VirtualNode → Prop
  | here (node : VirtualNode) : Leads node [] node
  | child {node child found : VirtualNode} {path : List Bytes} : child ∈ node.children →
      Leads child path found → Leads node (child.name :: path) found

theorem Leads.snoc {node found child : VirtualNode} {path : List Bytes}
    (leads : Leads node path found) (member : child ∈ found.children) :
    Leads node (path ++ [child.name]) child := by
  induction leads with
  | here node => exact .child member (.here child)
  | child first _ ih => exact .child first (ih member)

theorem leads_iff_find {path : List Bytes} {node found : VirtualNode}
    (distinct : Everywhere DistinctNames node) :
    Leads node path found ↔ node.find path = some found := by
  constructor
  · intro leads
    induction leads with
    | here node => rfl
    | child member _ ih =>
      obtain ⟨here, below⟩ := distinct
      rw [find, KeyedList.find?_key_of_mem here member]
      exact ih (below _ member)
  · induction path generalizing node with
    | nil =>
      intro reached
      cases reached
      exact .here _
    | cons first path ih =>
      intro reached
      obtain ⟨child, isChild, further⟩ := Option.bind_eq_some_iff.mp reached
      obtain ⟨_, below⟩ := distinct
      have member := List.mem_of_find?_eq_some isChild
      obtain rfl : child.name = first := by simpa using List.find?_some isChild
      exact .child member (ih (below child member) further)

theorem everywhere_of_leads {P : VirtualNode → Prop} {node : VirtualNode}
    (distinct : Everywhere DistinctNames node)
    (holds : ∀ path found, Leads node path found → P found) : Everywhere P node := by
  rw [everywhere_iff_find distinct]
  intro path found reached
  exact holds path found ((leads_iff_find distinct).mpr reached)

end VirtualNode

end FastModManager.Domain
