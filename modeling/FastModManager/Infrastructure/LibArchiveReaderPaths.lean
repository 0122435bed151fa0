import FastModManager.Core.PathNormalizerLaws
import FastModManager.Infrastructure.LibArchiveReaderLaws

namespace FastModManager.Infrastructure.LibArchiveReader

open Foundation Domain
open Core.PathNormalizer (normalizeArchiveEntry replaceBackslashes kept clean dot dotDot keeps
  normalizeArchiveEntry_eq_ok_iff mem_kept)

section Headers

variable {headers : List ArchiveHeader}

theorem readEntries_isOk_iff : ∀ {tree : VirtualTree},
    (∃ result, readEntries tree headers = .ok result) ↔ ∀ header ∈ headers, Readable header := by
  induction headers with
  | nil => intro tree; exact ⟨nofun, fun _ => ⟨tree, rfl⟩⟩
  | cons header headers ih =>
    intro tree
    rw [List.forall_mem_cons]
    rcases readEntries_cons tree header headers with
      ⟨readable, next, _, same⟩ | ⟨unreadable, error, same⟩
    · rw [same, ih, and_iff_right readable]
    · rw [same]
      exact ⟨nofun, fun ⟨readable, _⟩ => absurd readable unreadable⟩

end Headers

section Names

structure ProperName (name : Bytes) : Prop where
  nonempty : name ≠ []
  noSlash : slash ∉ name
  ne_dot : name ≠ [dot]
  ne_dotDot : name ≠ dotDot

theorem properName_of_mem {path name : Bytes} (member : name ∈ segmentsOf path) :
    ProperName name := by
  obtain ⟨among, proper⟩ := List.mem_filter.mp member
  simp only [ne_eq, Bool.and_eq_true, decide_eq_true_eq] at proper
  exact ⟨proper.1.1, Segments.sep_not_mem name among, proper.1.2, proper.2⟩

theorem segmentsOf_normalized {pathname normalized : Bytes}
    (accepted : normalizeArchiveEntry pathname = .ok normalized) :
    segmentsOf normalized = Segments.pieces slash normalized := by
  obtain ⟨safe, rfl⟩ := normalizeArchiveEntry_eq_ok_iff.mp accepted
  by_cases empty : kept (replaceBackslashes pathname) = []
  · rw [Core.PathNormalizer.clean_eq_nil empty]
    rfl
  · have split := Core.PathNormalizer.splitOn_clean empty
    have nonempty : clean (replaceBackslashes pathname) ≠ [] := by
      intro nothing
      rw [nothing, List.splitOn_nil] at split
      have blank : [] ∈ kept (replaceBackslashes pathname) := split ▸ List.mem_singleton_self _
      exact (mem_kept blank).2.1 rfl
    rw [Segments.pieces, if_neg nonempty, segmentsOf, split]
    apply List.filter_eq_self.mpr
    intro segment member
    have among := (List.mem_filter.mp member).1
    have differs : segment ≠ dotDot := by
      rintro rfl
      exact safe.noTraversal among
    simpa [differs] using (mem_kept member).2

def normalizedPath (header : ArchiveHeader) : Option Bytes :=
  header.pathname.bind fun pathname => (normalizeArchiveEntry pathname).toOption

def normalizedPaths (headers : List ArchiveHeader) : List Bytes := headers.filterMap normalizedPath

theorem normalizedPath_eq_some_iff {header : ArchiveHeader} {normalized : Bytes} :
    normalizedPath header = some normalized ↔
      ∃ pathname, header.pathname = some pathname ∧
        normalizeArchiveEntry pathname = .ok normalized := by
  rw [normalizedPath, Option.bind_eq_some_iff]
  apply exists_congr
  intro pathname
  cases normalizeArchiveEntry pathname <;> simp [Except.toOption]

theorem path_locate (header : ArchiveHeader) :
    (locate header).map (·.path) = (normalizedPath header).map (Segments.pieces slash) := by
  cases header with
  | failed => rfl
  | ok entry | warn entry =>
    simp only [locate, normalizedPath, ArchiveHeader.pathname]
    cases entry.pathname with
    | none => rfl
    | some pathname =>
      simp only [Option.bind_some]
      cases accepted : normalizeArchiveEntry pathname with
      | error error => rfl
      | ok normalized =>
        change some _ = some _
        rw [segmentsOf_normalized accepted]

theorem paths_located (headers : List ArchiveHeader) :
    (located headers).map (·.path) = (normalizedPaths headers).map (Segments.pieces slash) := by
  rw [located, normalizedPaths, List.map_filterMap, List.map_filterMap]
  congr 1
  funext header
  exact path_locate header

end Names

section Paths

variable {path : List Bytes} {entries : List LocatedEntry} {headers : List ArchiveHeader}

/-- The tree whose nodes below the root are the prefixes of the given paths. -/
structure IsTreeOf (paths : List (List Bytes)) (tree : VirtualTree) : Prop where
  nodes : ∀ path, path ≠ [] →
    ((∃ found, tree.root.Leads path found) ↔ ∃ segments ∈ paths, path <+: segments)
  distinct : tree.root.Everywhere VirtualNode.DistinctNames
  proper : tree.root.Everywhere fun node => ∀ child ∈ node.children, ProperName child.name

theorem leads_treeOf_iff (nonempty : path ≠ []) :
    (∃ found, (treeOf entries).root.Leads path found) ↔
      ∃ segments ∈ entries.map (·.path), path <+: segments := by
  have known : (∃ found, (treeOf entries).root.Leads path found) ↔
      (kindAt path (treeOf entries).root).isSome = true := by
    simp only [VirtualNode.leads_iff_find distinctNames_treeOf]
    rw [kindAt, Option.isSome_map, Option.isSome_iff_exists]
  rw [known, kindAt_treeOf nonempty, Option.isSome_map, List.find?_isSome]
  simp

theorem isTreeOf_treeOf : IsTreeOf ((normalizedPaths headers).map (Segments.pieces slash))
    (treeOf (located headers)) where
  nodes path nonempty := by rw [← paths_located, leads_treeOf_iff nonempty]
  distinct := distinctNames_treeOf
  proper := by
    apply VirtualNode.everywhere_of_leads distinctNames_treeOf
    intro path found leads child member
    have reached := (leads_treeOf_iff (List.append_ne_nil_of_right_ne_nil path
      (List.cons_ne_nil child.name []))).mp ⟨child, leads.snoc member⟩
    obtain ⟨segments, among, inside⟩ := reached
    rw [paths_located] at among
    obtain ⟨normalized, accepted, rfl⟩ := List.mem_map.mp among
    obtain ⟨header, _, found⟩ := List.mem_filterMap.mp accepted
    obtain ⟨pathname, _, result⟩ := normalizedPath_eq_some_iff.mp found
    rw [← segmentsOf_normalized result] at inside
    exact properName_of_mem (inside.subset (by simp))

def Refused (header : ArchiveHeader) : Prop :=
  ∃ pathname error, header.pathname = some pathname ∧ normalizeArchiveEntry pathname = .error error

theorem readable_iff {header : ArchiveHeader} (delivered : header ≠ .failed) :
    Readable header ↔ ¬ Refused header := by
  constructor
  · rintro readable ⟨pathname, error, named, refused⟩
    obtain ⟨normalized, accepted⟩ := readable.accepted pathname named
    cases refused.symm.trans accepted
  · intro unrefused
    refine ⟨delivered, fun pathname named => ?_⟩
    cases result : normalizeArchiveEntry pathname with
    | error error => exact absurd ⟨pathname, error, named, result⟩ unrefused
    | ok normalized => exact ⟨normalized, rfl⟩

theorem readTree_isOk_iff : (∃ tree, readTree true headers = .ok tree) ↔
    ∀ header ∈ headers, Readable header := by
  simp only [readTree, if_true]
  exact readEntries_isOk_iff

theorem readTree_paths (headers : List ArchiveHeader)
    (delivered : ∀ header ∈ headers, header ≠ .failed) :
    ((∃ header ∈ headers, Refused header) → ∃ error, readTree true headers = .error error) ∧
      ((∀ header ∈ headers, ¬ Refused header) → ∃ tree, readTree true headers = .ok tree ∧
        IsTreeOf ((normalizedPaths headers).map (Segments.pieces slash)) tree) := by
  constructor
  · rintro ⟨header, member, refused⟩
    cases read : readTree true headers with
    | error error => exact ⟨error, rfl⟩
    | ok tree =>
      have readable := readTree_isOk_iff.mp ⟨tree, read⟩ header member
      exact absurd refused ((readable_iff (delivered header member)).mp readable)
  · intro unrefused
    obtain ⟨tree, read⟩ := readTree_isOk_iff.mpr fun header member =>
      (readable_iff (delivered header member)).mpr (unrefused header member)
    refine ⟨tree, read, ?_⟩
    rw [readTree_eq_ok read]
    exact isTreeOf_treeOf

def nestedFile : ArchiveHeader := .ok ⟨some [0x61, 0x2F, 0x2E, 0x2F, 0x62], false, 1⟩

theorem readable_nestedFile : Readable nestedFile := by
  refine ⟨nofun, ?_⟩
  rintro _ ⟨⟩
  exact ⟨[0x61, 0x2F, 0x62], by decide⟩

theorem readTree_paths_of_nested :
    ∃ tree, readTree true [nestedFile] = .ok tree ∧ IsTreeOf [[[0x61], [0x62]]] tree := by
  have delivered : ∀ header ∈ [nestedFile], header ≠ .failed := by simp [nestedFile]
  apply (readTree_paths [nestedFile] delivered).2
  intro header member
  obtain rfl := List.mem_singleton.mp member
  exact (readable_iff (delivered _ member)).mp readable_nestedFile

end Paths

section Order

variable {path : List Bytes} {entries entries' : List LocatedEntry}

structure Apart (entries : List LocatedEntry) : Prop where
  distinct : (entries.map (·.path)).Nodup
  files : ∀ file ∈ entries, file.isDirectory = false → ∀ other ∈ entries,
    file.path <+: other.path → file.path = other.path

theorem isDeclared_perm (perm : entries.Perm entries') :
    isDeclared entries path = isDeclared entries' path := by
  simp only [isDeclared, perm.any_eq]

def kindFrom (entries : List LocatedEntry) (path : List Bytes) (first : LocatedEntry) : Kind :=
  ⟨first.path ≠ path || isDeclared entries path,
    if first.path = path && !first.isDirectory then first.size else 0⟩

theorem kindFrom_of_no_file {first : LocatedEntry} (member : first ∈ entries)
    (noFile : ¬ (first.path = path ∧ first.isDirectory = false)) :
    kindFrom entries path first = ⟨true, 0⟩ := by
  by_cases here : first.path = path
  · have directory : first.isDirectory = true := by simpa [here] using noFile
    have declared : isDeclared entries path = true :=
      List.any_eq_true.mpr ⟨first, member, by simp [here, directory]⟩
    simp [kindFrom, declared, directory]
  · simp [kindFrom, here]

theorem Apart.eq_file (apart : Apart entries) {file other : LocatedEntry} (member : file ∈ entries)
    (member' : other ∈ entries) (isFile : file.isDirectory = false)
    (below : file.path <+: other.path) : file = other :=
  List.inj_on_of_nodup_map apart.distinct member member'
    (apart.files file member isFile other member' below)

theorem kindFrom_eq (apart : Apart entries) {first second : LocatedEntry}
    (member : first ∈ entries) (member' : second ∈ entries) (inside : path <+: first.path)
    (inside' : path <+: second.path) :
    kindFrom entries path first = kindFrom entries path second := by
  by_cases file : first.path = path ∧ first.isDirectory = false
  · obtain ⟨rfl, isFile⟩ := file
    rw [apart.eq_file member member' isFile inside']
  · by_cases file' : second.path = path ∧ second.isDirectory = false
    · obtain ⟨rfl, isFile⟩ := file'
      rw [apart.eq_file member' member isFile inside]
    · rw [kindFrom_of_no_file member file, kindFrom_of_no_file member' file']

theorem kindAt_treeOf_perm (apart : Apart entries) (perm : entries.Perm entries') :
    kindAt path (treeOf entries).root = kindAt path (treeOf entries').root := by
  by_cases nonempty : path = []
  · rw [nonempty, treeOf, treeOf, kindAt_nil_insertAll, kindAt_nil_insertAll]
  · rw [kindAt_treeOf nonempty, kindAt_treeOf nonempty]
    change (entries.find? _).map (kindFrom entries path) =
      (entries'.find? _).map (kindFrom entries' path)
    have same : kindFrom entries' path = kindFrom entries path := by
      funext first
      rw [kindFrom, kindFrom, isDeclared_perm perm]
    rw [same]
    cases found : entries.find? (path <+: ·.path) with
    | none =>
      have none' : entries'.find? (path <+: ·.path) = none := by
        rw [List.find?_eq_none] at found ⊢
        exact fun entry member => found entry (perm.mem_iff.mpr member)
      rw [none']
    | some first =>
      have inside : path <+: first.path := by simpa using List.find?_some found
      have member := List.mem_of_find?_eq_some found
      have some' : (entries'.find? (path <+: ·.path)).isSome = true :=
        List.find?_isSome.mpr ⟨first, perm.mem_iff.mp member, by simpa using inside⟩
      obtain ⟨second, found'⟩ := Option.isSome_iff_exists.mp some'
      have inside' : path <+: second.path := by simpa using List.find?_some found'
      have member' := perm.mem_iff.mpr (List.mem_of_find?_eq_some found')
      rw [found', Option.map_some, Option.map_some, kindFrom_eq apart member member' inside inside']

def HasNode (tree : VirtualTree) (path : List Bytes) (isDirectory : Bool) (size : UInt64) : Prop :=
  ∃ found, tree.root.Leads path found ∧ found.isDirectory = isDirectory ∧ found.size = size

theorem hasNode_iff {tree : VirtualTree} {isDirectory : Bool} {size : UInt64}
    (distinct : tree.root.Everywhere VirtualNode.DistinctNames) :
    HasNode tree path isDirectory size ↔ kindAt path tree.root = some ⟨isDirectory, size⟩ := by
  simp only [HasNode, VirtualNode.leads_iff_find distinct, kindAt, Option.map_eq_some_iff,
    Kind.mk.injEq]

structure SameNodes (left right : VirtualTree) : Prop where
  leftDistinct : left.root.Everywhere VirtualNode.DistinctNames
  rightDistinct : right.root.Everywhere VirtualNode.DistinctNames
  nodes : ∀ path isDirectory size,
    HasNode left path isDirectory size ↔ HasNode right path isDirectory size

theorem readTree_same_for_every_order (headers headers' : List ArchiveHeader)
    (perm : headers.Perm headers') (readable : ∀ header ∈ headers, Readable header)
    (distinct : (normalizedPaths headers).Nodup)
    (files : ∀ file ∈ located headers, file.isDirectory = false → ∀ other ∈ located headers,
      file.path <+: other.path → file.path = other.path) :
    ∃ tree tree', readTree true headers = .ok tree ∧ readTree true headers' = .ok tree' ∧
      SameNodes tree tree' := by
  obtain ⟨tree, read⟩ := readTree_isOk_iff.mpr readable
  obtain ⟨tree', read'⟩ : ∃ tree', readTree true headers' = .ok tree' :=
    readTree_isOk_iff.mpr fun header member => readable header (perm.mem_iff.mpr member)
  refine ⟨tree, tree', read, read', ?_⟩
  rw [readTree_eq_ok read, readTree_eq_ok read']
  have apart : Apart (located headers) := by
    refine ⟨?_, files⟩
    rw [paths_located]
    exact distinct.map Segments.pieces_injective
  refine ⟨distinctNames_treeOf, distinctNames_treeOf, fun path isDirectory size => ?_⟩
  rw [hasNode_iff distinctNames_treeOf, hasNode_iff distinctNames_treeOf,
    kindAt_treeOf_perm apart (perm.filterMap locate)]
  rfl

theorem readTree_same_for_every_order_of_nested :
    ∃ tree tree', readTree true [nestedFile, .ok ⟨some [0x61], true, 0⟩] = .ok tree ∧
      readTree true [.ok ⟨some [0x61], true, 0⟩, nestedFile] = .ok tree' ∧ SameNodes tree tree' := by
  apply readTree_same_for_every_order [nestedFile, .ok ⟨some [0x61], true, 0⟩]
    [.ok ⟨some [0x61], true, 0⟩, nestedFile] (.swap _ _ _)
  · intro header member
    rcases List.mem_pair.mp member with rfl | rfl
    · exact readable_nestedFile
    · refine ⟨nofun, ?_⟩
      rintro _ ⟨⟩
      exact ⟨[0x61], by decide⟩
  · decide
  · decide

end Order

end FastModManager.Infrastructure.LibArchiveReader
