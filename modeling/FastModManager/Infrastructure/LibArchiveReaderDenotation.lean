import FastModManager.Infrastructure.LibArchiveReaderPaths

namespace FastModManager.Infrastructure.LibArchiveReader

open Foundation Domain
open KeyedList (mention firstMentions)

section Names

def nextName (path segments : List Bytes) : Option Bytes :=
  if path <+: segments then segments[path.length]? else none

def namesBelow (entries : List LocatedEntry) (path : List Bytes) : List Bytes :=
  entries.filterMap fun entry => nextName path entry.path

variable {isDirectory : Bool} {size : UInt64} {path segments : List Bytes}
  {node : VirtualNode} {entries : List LocatedEntry}

def namesAt (path : List Bytes) (node : VirtualNode) : List Bytes :=
  ((node.find path).map fun found => found.children.map (·.name)).getD []

theorem nextName_cons (segment : Bytes) (rest : List Bytes) :
    nextName (segment :: path) (segment :: rest) = nextName path rest := by
  simp [nextName, List.cons_prefix_cons]

theorem nextName_cons_of_ne {segment first : Bytes} (rest : List Bytes)
    (differs : first ≠ segment) :
    nextName (first :: path) (segment :: rest) = none := by
  simp [nextName, List.cons_prefix_cons, differs]

theorem namesAt_congr {node' : VirtualNode} (same : node.children = node'.children) :
    namesAt path node = namesAt path node' := by
  cases path with
  | nil => simp only [namesAt, VirtualNode.find, Option.map_some, same]
  | cons first path => simp only [namesAt, VirtualNode.find, same]

theorem namesAt_cons {first : Bytes} : namesAt (first :: path) node =
    (node.children.find? (·.name = first)).elim [] (namesAt path) := by
  rw [namesAt, VirtualNode.find]
  cases node.children.find? (·.name = first) <;> rfl

theorem namesAt_insertSegments : ∀ {path : List Bytes} {node : VirtualNode},
    namesAt path (insertSegments isDirectory size segments node) =
      (nextName path segments).elim (namesAt path node) (mention (namesAt path node)) := by
  induction segments with
  | nil =>
    intro path node
    cases path <;> rfl
  | cons segment rest ih =>
    intro path node
    cases path with
    | nil => exact KeyedList.map_key_upsert_eq_mention name_created name_revisited
    | cons first path =>
      rw [namesAt_cons, namesAt_cons, insertSegments]
      by_cases same : first = segment
      · rw [same, KeyedList.find?_upsert_self name_created name_revisited, nextName_cons,
          Option.elim_some]
        cases node.children.find? (·.name = segment) with
        | none =>
          have childless : namesAt path (created rest.isEmpty isDirectory size segment) = [] := by
            cases path <;> rfl
          rw [Option.elim_none, Option.elim_none, ih, childless]
        | some child => rw [Option.elim_some, Option.elim_some, ih, namesAt_congr children_revisited]
      · rw [KeyedList.find?_upsert_of_ne name_created name_revisited same,
          nextName_cons_of_ne rest same, Option.elim_none]

theorem namesAt_insertAll : ∀ {node : VirtualNode},
    namesAt path (insertAll node entries) =
      (namesBelow entries path).foldl mention (namesAt path node) := by
  induction entries with
  | nil => intro node; rfl
  | cons entry entries ih =>
    intro node
    rw [insertAll, List.foldl_cons, ← insertAll, ih, namesAt_insertSegments]
    simp only [namesBelow, List.filterMap_cons]
    cases nextName path entry.path <;> rfl

theorem names_treeOf {found : VirtualNode}
    (reached : (treeOf entries).root.find path = some found) :
    found.children.map (·.name) = firstMentions (namesBelow entries path) := by
  have childless : namesAt path ({} : VirtualTree).root = [] := by
    cases path <;> rfl
  have names : namesAt path (treeOf entries).root = firstMentions (namesBelow entries path) := by
    rw [treeOf, namesAt_insertAll, childless, firstMentions]
  rw [← names, namesAt, reached]
  rfl

end Names

section Denotation

variable {entries : List LocatedEntry} {tree tree' : VirtualTree}

/-- What the entries say a tree is: its root, the kind of every node below it, and the names of
the children of every node in their order. -/
structure Denotes (entries : List LocatedEntry) (tree : VirtualTree) : Prop where
  name : tree.root.name = []
  isDirectory : tree.root.isDirectory = true
  size : tree.root.size = 0
  siblings : ∀ path found, tree.root.Leads path found →
    found.children.map (·.name) = firstMentions (namesBelow entries path)
  kinds : ∀ path found, path ≠ [] → tree.root.Leads path found →
    ∃ first, entries.find? (path <+: ·.path) = some first ∧
      ⟨found.isDirectory, found.size⟩ = kindFrom entries path first

theorem denotes_treeOf : Denotes entries (treeOf entries) where
  name := by
    have name : ∀ {node : VirtualNode}, (insertAll node entries).name = node.name := by
      induction entries with
      | nil => intro node; rfl
      | cons entry entries ih => intro node; exact ih.trans name_insertSegments
    exact name
  isDirectory := by
    have root : kindAt [] (treeOf entries).root = some ⟨true, 0⟩ := kindAt_nil_insertAll
    exact congrArg Kind.isDirectory (Option.some.inj root)
  size := by
    have root : kindAt [] (treeOf entries).root = some ⟨true, 0⟩ := kindAt_nil_insertAll
    exact congrArg Kind.size (Option.some.inj root)
  siblings path found leads :=
    names_treeOf ((VirtualNode.leads_iff_find distinctNames_treeOf).mp leads)
  kinds path found nonempty leads := by
    have reached := (VirtualNode.leads_iff_find distinctNames_treeOf).mp leads
    have kind : kindAt path (treeOf entries).root = some ⟨found.isDirectory, found.size⟩ := by
      rw [kindAt, reached, Option.map_some]
    rw [kindAt_treeOf nonempty] at kind
    obtain ⟨first, isFirst, same⟩ := Option.map_eq_some_iff.mp kind
    exact ⟨first, isFirst, same.symm⟩

theorem Denotes.kind_eq (denotes : Denotes entries tree) (denotes' : Denotes entries tree')
    {path : List Bytes} {found found' : VirtualNode} (leads : tree.root.Leads path found)
    (leads' : tree'.root.Leads path found') :
    found.isDirectory = found'.isDirectory ∧ found.size = found'.size := by
  by_cases nonempty : path = []
  · subst nonempty
    cases leads
    cases leads'
    rw [denotes.isDirectory, denotes'.isDirectory, denotes.size, denotes'.size]
    exact ⟨rfl, rfl⟩
  · obtain ⟨first, isFirst, kind⟩ := denotes.kinds path found nonempty leads
    obtain ⟨first', isFirst', kind'⟩ := denotes'.kinds path found' nonempty leads'
    obtain rfl := Option.some.inj (isFirst.symm.trans isFirst')
    exact Kind.mk.inj (kind.trans kind'.symm)

theorem Denotes.node_eq (denotes : Denotes entries tree) (denotes' : Denotes entries tree')
    {found : VirtualNode} (distinct : found.Everywhere VirtualNode.DistinctNames) :
    ∀ {path : List Bytes} {found' : VirtualNode}, tree.root.Leads path found →
      tree'.root.Leads path found' → found.name = found'.name → found = found' := by
  induction distinct with
  | @intro found here _ ih =>
    intro path found' leads leads' sameName
    obtain ⟨sameDirectory, sameSize⟩ := denotes.kind_eq denotes' leads leads'
    have names : found.children.map (·.name) = found'.children.map (·.name) :=
      (denotes.siblings path found leads).trans (denotes'.siblings path found' leads').symm
    have sameChildren : found.children = found'.children := by
      apply List.ext_getElem
      · simpa using congrArg List.length names
      · intro index inside inside'
        have sameChild : found.children[index].name = found'.children[index].name := by
          simpa [inside, inside'] using congrArg (·[index]?) names
        apply ih _ (List.getElem_mem inside) (leads.snoc (List.getElem_mem inside)) _ sameChild
        rw [sameChild]
        exact leads'.snoc (List.getElem_mem inside')
    cases found
    cases found'
    simp only [VirtualNode.mk.injEq]
    exact ⟨sameName, sameDirectory, sameSize, sameChildren⟩

theorem denotes_iff : Denotes entries tree ↔ tree = treeOf entries := by
  constructor
  · intro denotes
    have same := denotes_treeOf.node_eq denotes distinctNames_treeOf (.here _) (.here _)
      (denotes_treeOf.name.trans denotes.name.symm)
    cases tree
    rw [treeOf, VirtualTree.mk.injEq]
    exact same.symm
  · rintro rfl
    exact denotes_treeOf

end Denotation

/-- An accepted archive is read as the one tree that its entries say. -/
theorem readTree_denotes_iff (opened : Bool) (headers : List ArchiveHeader) (tree : VirtualTree)
    (read : readTree opened headers = .ok tree) (other : VirtualTree) :
    Denotes (located headers) other ↔ other = tree := by
  rw [denotes_iff, readTree_eq_ok read]

theorem readTree_denotes_iff_of_late_directory :
    Denotes (located [.ok ⟨some [0x62, 0x2F, 0x78], false, 1⟩, .ok ⟨some [0x61], false, 2⟩,
        .ok ⟨some [0x62], true, 0⟩])
      ⟨⟨[], true, 0, [⟨[0x62], true, 0, [⟨[0x78], false, 1, []⟩]⟩, ⟨[0x61], false, 2, []⟩]⟩⟩ :=
  (readTree_denotes_iff true [.ok ⟨some [0x62, 0x2F, 0x78], false, 1⟩, .ok ⟨some [0x61], false, 2⟩,
    .ok ⟨some [0x62], true, 0⟩] _ rfl _).mpr rfl

end FastModManager.Infrastructure.LibArchiveReader
