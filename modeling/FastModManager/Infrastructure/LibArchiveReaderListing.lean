import FastModManager.Infrastructure.LibArchiveReaderDenotation

namespace FastModManager.Infrastructure.LibArchiveReader

open Foundation Domain
open Core.PathNormalizer (normalizeArchiveEntry normalizeArchiveEntry_eq replaceBackslashes_eq_self
  normalizeArchiveEntry_eq_ok_iff backslash backslash_not_mem_replaceBackslashes mem_clean
  startsWithDrive startsWithDrive_of_head? clean kept keeps dot dotDot)

section Listing

def within (name : Bytes) (entry : LocatedEntry) : LocatedEntry :=
  { entry with path := name :: entry.path }

mutual

def entriesOf : VirtualNode → List LocatedEntry
  | ⟨name, isDirectory, size, children⟩ =>
    ⟨[name], isDirectory, size⟩ :: (entriesBelow children).map (within name)

def entriesBelow : List VirtualNode → List LocatedEntry
  | [] => []
  | child :: children => entriesOf child ++ entriesBelow children

end

def headerOf (entry : LocatedEntry) : ArchiveHeader :=
  .ok ⟨some ([slash].intercalate entry.path), entry.isDirectory, entry.size.toInt64⟩

def listing (tree : VirtualTree) : List ArchiveHeader :=
  (entriesBelow tree.root.children).map headerOf

theorem entriesOf_eq (node : VirtualNode) : entriesOf node =
    ⟨[node.name], node.isDirectory, node.size⟩ ::
      (entriesBelow node.children).map (within node.name) := by
  cases node
  rfl

theorem entriesBelow_eq_flatMap (children : List VirtualNode) :
    entriesBelow children = children.flatMap entriesOf := by
  induction children with
  | nil => rfl
  | cons child children ih => rw [entriesBelow, ih, List.flatMap_cons]

theorem path_ne_nil {children : List VirtualNode} {entry : LocatedEntry}
    (member : entry ∈ entriesBelow children) : entry.path ≠ [] := by
  rw [entriesBelow_eq_flatMap] at member
  obtain ⟨child, _, member⟩ := List.mem_flatMap.mp member
  rw [entriesOf_eq] at member
  rcases List.mem_cons.mp member with rfl | below
  · exact List.cons_ne_nil _ _
  · obtain ⟨inner, _, rfl⟩ := List.mem_map.mp below
    exact List.cons_ne_nil _ _

end Listing

section Rebuild

def Appends (child : VirtualNode) : Prop :=
  ∀ node : VirtualNode, child.name ∉ node.children.map (·.name) →
    insertAll node (entriesOf child) = { node with children := node.children ++ [child] }

theorem insertAll_within {node child : VirtualNode} {siblings : List VirtualNode}
    {entries : List LocatedEntry} (fresh : child.name ∉ siblings.map (·.name))
    (nonempty : ∀ entry ∈ entries, entry.path ≠ []) :
    insertAll { node with children := siblings ++ [child] } (entries.map (within child.name)) =
      { node with children := siblings ++ [insertAll child entries] } := by
  induction entries generalizing child with
  | nil => rfl
  | cons entry entries ih =>
    obtain ⟨here, later⟩ := List.forall_mem_cons.mp nonempty
    have notLast : entry.path.isEmpty = false := by simpa using here
    have moved : insertSegments entry.isDirectory entry.size (child.name :: entry.path)
        { node with children := siblings ++ [child] } =
        { node with children :=
            siblings ++ [insertSegments entry.isDirectory entry.size entry.path child] } := by
      rw [insertSegments, notLast]
      simp only [VirtualNode.mk.injEq, true_and]
      exact KeyedList.upsert_append_singleton fresh
    have renamed : (insertSegments entry.isDirectory entry.size entry.path child).name = child.name :=
      name_insertSegments
    rw [List.map_cons, insertAll, List.foldl_cons, ← insertAll, within]
    dsimp only
    rw [moved, ← renamed, ih (renamed ▸ fresh) later]
    rfl

theorem insertAll_entriesBelow {node : VirtualNode} {children : List VirtualNode}
    (appends : ∀ child ∈ children, Appends child)
    (distinct : ((node.children ++ children).map (·.name)).Nodup) :
    insertAll node (entriesBelow children) = { node with children := node.children ++ children } := by
  induction children generalizing node with
  | nil =>
    cases node
    simp [entriesBelow, insertAll]
  | cons child children ih =>
    obtain ⟨first, later⟩ := List.forall_mem_cons.mp appends
    have fresh : child.name ∉ node.children.map (·.name) := by
      rw [List.map_append, List.map_cons, List.nodup_append'] at distinct
      exact fun known => distinct.2.2 known List.mem_cons_self
    rw [entriesBelow, insertAll_append, first node fresh, ih later]
    · simp
    · simpa using distinct

structure Listable (node : VirtualNode) : Prop where
  distinct : node.DistinctNames
  size : node.isDirectory = true → node.size = 0

theorem appends_of_listable {child : VirtualNode} (listable : child.Everywhere Listable) :
    Appends child := by
  induction listable with
  | @intro child here _ ih =>
    -- the node appends itself as a leaf, and then its children below that
    intro node fresh
    obtain ⟨name, isDirectory, size, children⟩ := child
    have sized : (if true && !isDirectory then size else 0) = size := by
      cases isDirectory with
      | true => exact (here.size rfl).symm
      | false => rfl
    have leaf : insertSegments isDirectory size [name] node =
        { node with children := node.children ++ [⟨name, isDirectory, size, []⟩] } := by
      rw [insertSegments, KeyedList.upsert_of_notMem fresh]
      simp only [insertSegments, created, List.isEmpty_nil, if_true, sized]
    have filled : insertAll ⟨name, isDirectory, size, []⟩ (entriesBelow children) =
        ⟨name, isDirectory, size, children⟩ :=
      insertAll_entriesBelow ih here.distinct
    rw [entriesOf, insertAll, List.foldl_cons, ← insertAll]
    dsimp only
    rw [leaf]
    have moved := @insertAll_within node ⟨name, isDirectory, size, []⟩ node.children
      (entriesBelow children) fresh fun entry member => path_ne_nil member
    rw [filled] at moved
    exact moved

end Rebuild

section Headers

structure KeptName (name : Bytes) : Prop extends ProperName name where
  noBackslash : backslash ∉ name

section Entry

variable {entry : LocatedEntry} (names : ∀ name ∈ entry.path, KeptName name)

include names

theorem backslash_not_mem_path : backslash ∉ [slash].intercalate entry.path := by
  intro member
  rcases Segments.mem_intercalate member with same | ⟨name, among, inside⟩
  · exact absurd same (by decide)
  · exact (names name among).noBackslash inside

variable (nonempty : entry.path ≠ [])

include nonempty

theorem splitOn_path : ([slash].intercalate entry.path).splitOn slash = entry.path :=
  List.splitOn_intercalate slash (fun name member => (names name member).noSlash) nonempty

theorem normalizeArchiveEntry_path :
    normalizeArchiveEntry ([slash].intercalate entry.path) =
      if entry.path.head?.any startsWithDrive then .error .absoluteNotAllowed
      else .ok ([slash].intercalate entry.path) := by
  have split := splitOn_path names nonempty
  obtain ⟨first, rest, path⟩ := List.exists_cons_of_ne_nil nonempty
  have head : entry.path.head? = some first := by rw [path, List.head?_cons]
  have firstIn : first ∈ entry.path := List.mem_of_mem_head? head
  have relative : ([slash].intercalate entry.path).head? ≠ some slash := by
    intro absolute
    have text : [slash].intercalate entry.path ≠ [] := by
      intro empty
      rw [empty] at absolute
      cases absolute
    have blank := (Segments.head?_eq_sep_iff text).mp absolute
    rw [split, head] at blank
    exact (names first firstIn).nonempty (Option.some.inj blank)
  have drive : startsWithDrive ([slash].intercalate entry.path) = startsWithDrive first :=
    (startsWithDrive_of_head? (by rw [split, head])).symm
  have noTraversal : dotDot ∉ entry.path := fun member => (names _ member).ne_dotDot rfl
  have cleaned : clean ([slash].intercalate entry.path) = [slash].intercalate entry.path := by
    rw [clean, kept, split, List.filter_eq_self.mpr]
    intro name member
    simp [keeps, (names name member).nonempty, (names name member).ne_dot]
  rw [normalizeArchiveEntry_eq, replaceBackslashes_eq_self (backslash_not_mem_path names),
    drive, split, if_neg noTraversal, cleaned, head]
  simp [relative]

theorem locate_headerOf (noDrive : entry.path.head?.any startsWithDrive = false) :
    locate (headerOf entry) = some entry := by
  have segments : segmentsOf ([slash].intercalate entry.path) = entry.path := by
    rw [segmentsOf, splitOn_path names nonempty, List.filter_eq_self]
    intro name member
    simp [(names name member).nonempty, (names name member).ne_dot, (names name member).ne_dotDot]
  simp only [locate, headerOf, normalizeArchiveEntry_path names nonempty, noDrive]
  simp [segments]

end Entry

end Headers

section Trees

variable {node found : VirtualNode} {tree : VirtualTree}

theorem exists_node_of_entry (distinct : node.Everywhere VirtualNode.DistinctNames) :
    ∀ entry ∈ entriesBelow node.children, ∃ found, node.Leads entry.path found ∧
      found.isDirectory = entry.isDirectory := by
  induction distinct with
  | @intro node _ _ ih =>
    intro entry member
    rw [entriesBelow_eq_flatMap] at member
    obtain ⟨child, isChild, member⟩ := List.mem_flatMap.mp member
    rw [entriesOf_eq] at member
    rcases List.mem_cons.mp member with rfl | below
    · exact ⟨child, .child isChild (.here child), rfl⟩
    · obtain ⟨inner, innerIn, rfl⟩ := List.mem_map.mp below
      obtain ⟨found, leads, same⟩ := ih child isChild inner innerIn
      exact ⟨found, .child isChild leads, same⟩

theorem forall_name_of_leads {P : Bytes → Prop} {path : List Bytes}
    (names : node.Everywhere fun node => ∀ child ∈ node.children, P child.name)
    (leads : node.Leads path found) : ∀ name ∈ path, P name := by
  induction leads with
  | here => exact List.forall_mem_nil _
  | @child node child found path isChild _ ih =>
    obtain ⟨here, below⟩ := names
    exact List.forall_mem_cons.mpr ⟨here child isChild, ih (below child isChild)⟩

theorem keptNames_treeOf {headers : List ArchiveHeader} :
    (treeOf (located headers)).root.Everywhere fun node =>
      ∀ child ∈ node.children, KeptName child.name := by
  apply VirtualNode.everywhere_of_leads distinctNames_treeOf
  intro path found leads child member
  have reached := (leads_treeOf_iff (List.append_ne_nil_of_right_ne_nil path
    (List.cons_ne_nil child.name []))).mp ⟨child, leads.snoc member⟩
  obtain ⟨segments, among, inside⟩ := reached
  rw [paths_located] at among
  obtain ⟨normalized, accepted, rfl⟩ := List.mem_map.mp among
  obtain ⟨header, _, isPath⟩ := List.mem_filterMap.mp accepted
  obtain ⟨pathname, _, result⟩ := normalizedPath_eq_some_iff.mp isPath
  rw [← segmentsOf_normalized result] at inside
  have isSegment : child.name ∈ segmentsOf normalized := inside.subset (by simp)
  refine ⟨properName_of_mem isSegment, fun member => ?_⟩
  obtain ⟨_, rfl⟩ := normalizeArchiveEntry_eq_ok_iff.mp result
  have inPath := (Segments.infix_of_mem_splitOn (List.mem_filter.mp isSegment).1).subset member
  rcases mem_clean inPath with same | inside
  · exact absurd same (by decide)
  · exact backslash_not_mem_replaceBackslashes inside

theorem head?_of_leads {path : List Bytes} {first : Bytes} (leads : node.Leads path found)
    (starts : path.head? = some first) : ∃ child ∈ node.children, child.name = first := by
  cases leads with
  | here => cases starts
  | child isChild _ => exact ⟨_, isChild, Option.some.inj starts⟩

section Listed

variable (distinct : tree.root.Everywhere VirtualNode.DistinctNames)
  (names : tree.root.Everywhere fun node => ∀ child ∈ node.children, KeptName child.name)

include distinct names

theorem keptNames_of_entry {entry : LocatedEntry}
    (member : entry ∈ entriesBelow tree.root.children) :
    ∀ name ∈ entry.path, KeptName name := by
  obtain ⟨found, leads, _⟩ := exists_node_of_entry distinct entry member
  exact forall_name_of_leads names leads

omit names in
theorem noDrive_of_entry
    (noDrive : ∀ child ∈ tree.root.children, startsWithDrive child.name = false)
    {entry : LocatedEntry} (member : entry ∈ entriesBelow tree.root.children) :
    entry.path.head?.any startsWithDrive = false := by
  obtain ⟨found, leads, _⟩ := exists_node_of_entry distinct entry member
  rw [Option.any_eq_false]
  intro first starts
  obtain ⟨child, isChild, rfl⟩ := head?_of_leads leads starts
  simp [noDrive child isChild]

theorem located_listing
    (noDrive : ∀ child ∈ tree.root.children, startsWithDrive child.name = false) :
    located (listing tree) = entriesBelow tree.root.children := by
  rw [located, listing, List.filterMap_map]
  calc (entriesBelow tree.root.children).filterMap (locate ∘ headerOf)
      = (entriesBelow tree.root.children).filterMap some := by
        refine List.filterMap_congr fun entry member => ?_
        exact locate_headerOf (keptNames_of_entry distinct names member) (path_ne_nil member)
          (noDrive_of_entry distinct noDrive member)
    _ = entriesBelow tree.root.children := List.filterMap_some

theorem readTree_listing
    (noDrive : ∀ child ∈ tree.root.children, startsWithDrive child.name = false) :
    readTree true (listing tree) = .ok (treeOf (entriesBelow tree.root.children)) := by
  obtain ⟨result, read⟩ : ∃ result, readTree true (listing tree) = .ok result := by
    refine readTree_isOk_iff.mpr fun header member => ?_
    obtain ⟨entry, isEntry, rfl⟩ := List.mem_map.mp member
    refine ⟨by simp [headerOf], fun pathname named => ⟨pathname, ?_⟩⟩
    obtain rfl : [slash].intercalate entry.path = pathname := Option.some.inj named
    rw [normalizeArchiveEntry_path (keptNames_of_entry distinct names isEntry) (path_ne_nil isEntry),
      noDrive_of_entry distinct noDrive isEntry]
    rfl
  rw [read, readTree_eq_ok read, located_listing distinct names noDrive]

theorem noDrive_of_readable (readable : ∀ header ∈ listing tree, Readable header) :
    ∀ child ∈ tree.root.children, startsWithDrive child.name = false := by
  intro child isChild
  have isEntry : (⟨[child.name], child.isDirectory, child.size⟩ : LocatedEntry) ∈
      entriesBelow tree.root.children := by
    rw [entriesBelow_eq_flatMap]
    refine List.mem_flatMap.mpr ⟨child, isChild, ?_⟩
    rw [entriesOf_eq]
    exact List.mem_cons_self
  obtain ⟨normalized, accepted⟩ := (readable _ (List.mem_map_of_mem isEntry)).accepted _ rfl
  have result := normalizeArchiveEntry_path (keptNames_of_entry distinct names isEntry)
    (path_ne_nil isEntry)
  rw [accepted] at result
  by_contra drive
  have drive' : [child.name].head?.any startsWithDrive = true := by simpa using drive
  rw [if_pos drive'] at result
  cases result

end Listed

theorem size_of_rebuilt (distinct : tree.root.Everywhere VirtualNode.DistinctNames)
    (same : tree = treeOf (entriesBelow tree.root.children)) {path : List Bytes}
    (leads : tree.root.Leads path found)
    (directory : found.isDirectory = true) : found.size = 0 := by
  have denotes : Denotes (entriesBelow tree.root.children) tree := denotes_iff.mpr same
  by_cases nonempty : path = []
  · subst nonempty
    cases leads
    exact denotes.size
  · obtain ⟨first, isFirst, kind⟩ := denotes.kinds path found nonempty leads
    have size : found.size = (kindFrom (entriesBelow tree.root.children) path first).size :=
      congrArg Kind.size kind
    rw [size, kindFrom, if_neg]
    intro file
    simp only [Bool.and_eq_true, decide_eq_true_eq, Bool.not_eq_true'] at file
    obtain ⟨node, leads', isFile⟩ :=
      exists_node_of_entry distinct first (List.mem_of_find?_eq_some isFirst)
    rw [file.1, VirtualNode.leads_iff_find distinct] at leads'
    rw [VirtualNode.leads_iff_find distinct] at leads
    obtain rfl := Option.some.inj (leads.symm.trans leads')
    rw [file.2, directory] at isFile
    cases isFile

end Trees

/-- What an accepted archive is read as is read again from its listing, exactly if no directory has
a size and no name at the top looks like a drive. -/
theorem readTree_listing_iff (opened : Bool) (headers : List ArchiveHeader) (tree : VirtualTree)
    (read : readTree opened headers = .ok tree) :
    readTree true (listing tree) = .ok tree ↔
      (tree.root.Everywhere fun node => node.isDirectory = true → node.size = 0) ∧
        ∀ child ∈ tree.root.children, startsWithDrive child.name = false := by
  have isTree := readTree_eq_ok read
  have distinct : tree.root.Everywhere VirtualNode.DistinctNames := isTree ▸ distinctNames_treeOf
  have names : tree.root.Everywhere fun node => ∀ child ∈ node.children, KeptName child.name :=
    isTree ▸ keptNames_treeOf
  constructor
  · intro again
    have noDrive := noDrive_of_readable distinct names (readTree_isOk_iff.mp ⟨tree, again⟩)
    refine ⟨VirtualNode.everywhere_of_leads distinct fun path found leads directory => ?_, noDrive⟩
    refine size_of_rebuilt distinct ?_ leads directory
    exact Except.ok.inj (again.symm.trans (readTree_listing distinct names noDrive))
  · rintro ⟨sizes, noDrive⟩
    rw [readTree_listing distinct names noDrive]
    have listable : tree.root.Everywhere Listable := by
      refine VirtualNode.everywhere_of_leads distinct fun path found leads => ⟨?_, ?_⟩
      · exact (VirtualNode.everywhere_iff_find distinct).mp distinct path found
          ((VirtualNode.leads_iff_find distinct).mp leads)
      · exact (VirtualNode.everywhere_iff_find distinct).mp sizes path found
          ((VirtualNode.leads_iff_find distinct).mp leads)
    have denotes : Denotes (located headers) tree := denotes_iff.mpr isTree
    obtain ⟨here, below⟩ := listable
    have rebuilt := @insertAll_entriesBelow ({} : VirtualTree).root tree.root.children
      (fun child isChild => appends_of_listable (below child isChild)) here.distinct
    rw [treeOf, rebuilt]
    obtain ⟨⟨name, isDirectory, size, children⟩⟩ := tree
    obtain ⟨rfl, rfl, rfl, _, _⟩ := denotes
    rfl

theorem readTree_listing_iff_of_late_directory :
    readTree true (listing ⟨⟨[], true, 0, [⟨[0x62], true, 0, [⟨[0x78], false, 1, []⟩]⟩,
        ⟨[0x61], false, 2, []⟩]⟩⟩) =
      .ok ⟨⟨[], true, 0, [⟨[0x62], true, 0, [⟨[0x78], false, 1, []⟩]⟩, ⟨[0x61], false, 2, []⟩]⟩⟩ := by
  refine (readTree_listing_iff true [.ok ⟨some [0x62, 0x2F, 0x78], false, 1⟩,
    .ok ⟨some [0x61], false, 2⟩, .ok ⟨some [0x62], true, 0⟩] _ rfl).mpr ⟨?_, ?_⟩
  · refine .intro (fun _ => rfl) fun child isChild => ?_
    rcases List.mem_pair.mp isChild with rfl | rfl
    · refine .intro (fun _ => rfl) fun inner isInner => ?_
      obtain rfl := List.mem_singleton.mp isInner
      exact .intro nofun nofun
    · exact .intro nofun nofun
  · intro child isChild
    rcases List.mem_pair.mp isChild with rfl | rfl <;> rfl

end FastModManager.Infrastructure.LibArchiveReader
