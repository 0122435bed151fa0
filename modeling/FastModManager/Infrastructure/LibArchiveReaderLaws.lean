import FastModManager.Infrastructure.LibArchiveReader

namespace FastModManager.Infrastructure.LibArchiveReader

open Foundation Domain

structure Kind where
  isDirectory : Bool
  size : UInt64
  deriving DecidableEq, Repr

def kindAt (path : List Bytes) (node : VirtualNode) : Option Kind :=
  (node.find path).map fun found => ⟨found.isDirectory, found.size⟩

structure LocatedEntry where
  path : List Bytes
  isDirectory : Bool
  size : UInt64
  deriving DecidableEq, Repr

/-- What an entry makes of the kind at a path: it creates what is missing on its way, and may turn
what is at its own path into a directory. -/
def visit (path : List Bytes) (kind : Option Kind) (entry : LocatedEntry) : Option Kind :=
  if path <+: entry.path then
    some (if path = entry.path then
      kind.elim ⟨entry.isDirectory, if entry.isDirectory then 0 else entry.size⟩
        fun kind => ⟨kind.isDirectory || entry.isDirectory, kind.size⟩
    else kind.getD ⟨true, 0⟩)
  else kind

section Insert

variable {isDirectory : Bool} {size : UInt64} {path segments : List Bytes}
variable {node node' : VirtualNode}

theorem name_insertSegments : (insertSegments isDirectory size segments node).name = node.name := by
  cases segments <;> rfl

theorem name_created {isLast : Bool} {segment : Bytes} :
    (insertSegments isDirectory size segments (created isLast isDirectory size segment)).name =
      segment :=
  name_insertSegments

theorem name_revisited {isLast : Bool} (node : VirtualNode) :
    (insertSegments isDirectory size segments (revisited isLast isDirectory node)).name =
      node.name := by
  rw [name_insertSegments, revisited]
  split <;> rfl

theorem children_revisited {isLast : Bool} :
    (revisited isLast isDirectory node).children = node.children := by
  rw [revisited]
  split <;> rfl

theorem kindAt_nil_insertSegments :
    kindAt [] (insertSegments isDirectory size segments node) = kindAt [] node := by
  cases segments <;> rfl

theorem kindAt_nil_revisited {isLast : Bool} :
    kindAt [] (revisited isLast isDirectory node) =
      some ⟨node.isDirectory || isLast && isDirectory, node.size⟩ := by
  cases isLast <;> cases isDirectory <;> simp [revisited, kindAt, VirtualNode.find]

theorem kindAt_congr (nonempty : path ≠ []) (same : node.children = node'.children) :
    kindAt path node = kindAt path node' := by
  obtain ⟨first, path, rfl⟩ := List.exists_cons_of_ne_nil nonempty
  simp only [kindAt, VirtualNode.find, same]

theorem visit_cons {segment : Bytes} {rest : List Bytes} {kind : Option Kind} :
    visit (segment :: path) kind ⟨segment :: rest, isDirectory, size⟩ =
      visit path kind ⟨rest, isDirectory, size⟩ := by
  simp [visit, List.cons_prefix_cons]

theorem visit_last (kind : Option Kind) :
    visit [] kind ⟨segments, isDirectory, size⟩ =
      some (kind.elim
        ⟨if segments.isEmpty then isDirectory else true,
          if segments.isEmpty && !isDirectory then size else 0⟩
        fun kind => ⟨kind.isDirectory || segments.isEmpty && isDirectory, kind.size⟩) := by
  cases segments <;> cases kind <;> cases isDirectory <;> simp [visit]

theorem kindAt_insertSegments : ∀ {path : List Bytes} {node : VirtualNode}, path ≠ [] →
    kindAt path (insertSegments isDirectory size segments node) =
      visit path (kindAt path node) ⟨segments, isDirectory, size⟩ := by
  induction segments with
  | nil =>
    intro path node nonempty
    rw [visit, if_neg (mt List.prefix_nil.mp nonempty), insertSegments]
  | cons segment rest ih =>
    -- the first segment leads to the node that takes the rest
    intro path node nonempty
    obtain ⟨first, path, rfl⟩ := List.exists_cons_of_ne_nil nonempty
    simp only [kindAt, insertSegments, VirtualNode.find]
    by_cases same : first = segment
    · rw [same, KeyedList.find?_upsert_self name_created name_revisited, visit_cons,
        Option.bind_some]
      cases known : node.children.find? (·.name = segment) with
      | none =>
        change kindAt path (insertSegments _ _ _ _) = visit path none _
        by_cases last : path = []
        · rw [last, kindAt_nil_insertSegments, visit_last]
          rfl
        · have childless : kindAt path (created rest.isEmpty isDirectory size segment) = none := by
            obtain ⟨first, path, rfl⟩ := List.exists_cons_of_ne_nil last
            rfl
          rw [ih last, childless]
      | some child =>
        change kindAt path (insertSegments _ _ _ _) = visit path (kindAt path child) _
        by_cases last : path = []
        · rw [last, kindAt_nil_insertSegments, visit_last, kindAt_nil_revisited]
          rfl
        · rw [ih last, kindAt_congr last children_revisited]
    · rw [KeyedList.find?_upsert_of_ne name_created name_revisited same, visit,
        if_neg (fun inside => same (List.cons_prefix_cons.mp inside).1)]

theorem distinctNames_insertSegments : ∀ {node : VirtualNode},
    node.Everywhere VirtualNode.DistinctNames →
      (insertSegments isDirectory size segments node).Everywhere VirtualNode.DistinctNames := by
  induction segments with
  | nil => intro node distinct; exact distinct
  | cons segment rest ih =>
    rintro node ⟨here, below⟩
    refine .intro (KeyedList.nodup_upsert name_created name_revisited here) ?_
    apply KeyedList.forall_mem_upsert below
    · exact ih (.intro List.nodup_nil nofun)
    · intro child member
      obtain ⟨childHere, childBelow⟩ := below child member
      apply ih
      rw [← children_revisited] at childBelow
      refine .intro ?_ childBelow
      rw [VirtualNode.DistinctNames, children_revisited]
      exact childHere

end Insert

section Entries

variable {path : List Bytes} {entries : List LocatedEntry} {headers : List ArchiveHeader}

def locate : ArchiveHeader → Option LocatedEntry
  | .failed => none
  | .ok entry | .warn entry =>
    match entry.pathname with
    | none => none
    | some pathname =>
      match Core.PathNormalizer.normalizeArchiveEntry pathname with
      | .error _ => none
      | .ok normalized => some ⟨segmentsOf normalized, entry.isDirectory, entry.size.toUInt64⟩

def located (headers : List ArchiveHeader) : List LocatedEntry := headers.filterMap locate

def insertAll (node : VirtualNode) (entries : List LocatedEntry) : VirtualNode :=
  entries.foldl (fun node entry => insertSegments entry.isDirectory entry.size entry.path node) node

theorem located_cons (header : ArchiveHeader) :
    located (header :: headers) = located [header] ++ located headers := by
  rw [located, located, located, ← List.filterMap_append]
  rfl

theorem insertAll_append (node : VirtualNode) (before after : List LocatedEntry) :
    insertAll node (before ++ after) = insertAll (insertAll node before) after :=
  List.foldl_append

def ArchiveHeader.pathname : ArchiveHeader → Option Bytes
  | .failed => none
  | .ok entry | .warn entry => entry.pathname

structure Readable (header : ArchiveHeader) : Prop where
  delivered : header ≠ .failed
  accepted : ∀ pathname, header.pathname = some pathname →
    ∃ normalized, Core.PathNormalizer.normalizeArchiveEntry pathname = .ok normalized

theorem readEntries_cons (tree : VirtualTree) (header : ArchiveHeader)
    (headers : List ArchiveHeader) :
    (Readable header ∧ ∃ next, next.root = insertAll tree.root (located [header]) ∧
      readEntries tree (header :: headers) = readEntries next headers) ∨
      ¬ Readable header ∧ ∃ error, readEntries tree (header :: headers) = .error error := by
  cases header with
  | failed => exact .inr ⟨fun readable => readable.delivered rfl, _, rfl⟩
  | ok entry | warn entry =>
    simp only [readEntries]
    cases named : entry.pathname with
    | none =>
      refine .inl ⟨⟨by simp, fun pathname same => ?_⟩, tree, ?_, rfl⟩
      · cases named.symm.trans same
      · simp [located, locate, named, insertAll]
    | some pathname =>
      cases result : Core.PathNormalizer.normalizeArchiveEntry pathname with
      | error error =>
        refine .inr ⟨fun readable => ?_, .invalidFormat, by simp only [result]⟩
        obtain ⟨normalized, same⟩ := readable.accepted pathname named
        cases result.symm.trans same
      | ok normalized =>
        refine .inl ⟨⟨by simp, fun pathname' same => ?_⟩,
          insertIntoTree tree normalized entry.isDirectory entry.size.toUInt64, ?_,
          by simp only [result]⟩
        · obtain rfl := Option.some.inj (named.symm.trans same)
          exact ⟨normalized, result⟩
        · simp [located, locate, named, result, insertAll, insertIntoTree]

theorem readEntries_eq_ok {result : VirtualTree} : ∀ {tree : VirtualTree},
    readEntries tree headers = .ok result → result.root = insertAll tree.root (located headers) := by
  induction headers with
  | nil =>
    rintro tree ⟨rfl⟩
    rfl
  | cons header headers ih =>
    intro tree read
    rcases readEntries_cons tree header headers with ⟨_, next, root, same⟩ | ⟨_, error, same⟩
    · rw [ih (same.symm.trans read), root, ← insertAll_append, ← located_cons]
    · cases same.symm.trans read

theorem kindAt_insertAll (nonempty : path ≠ []) : ∀ {node : VirtualNode},
    kindAt path (insertAll node entries) = entries.foldl (visit path) (kindAt path node) := by
  induction entries with
  | nil => intro node; rfl
  | cons entry entries ih =>
    intro node
    rw [insertAll, List.foldl_cons, List.foldl_cons, ← kindAt_insertSegments nonempty]
    exact ih

theorem kindAt_nil_insertAll : ∀ {node : VirtualNode},
    kindAt [] (insertAll node entries) = kindAt [] node := by
  induction entries with
  | nil => intro node; rfl
  | cons entry entries ih =>
    intro node
    rw [insertAll, List.foldl_cons, ← insertAll, ih, kindAt_nil_insertSegments]

theorem distinctNames_insertAll : ∀ {node : VirtualNode},
    node.Everywhere VirtualNode.DistinctNames →
      (insertAll node entries).Everywhere VirtualNode.DistinctNames := by
  induction entries with
  | nil => intro node distinct; exact distinct
  | cons entry entries ih =>
    intro node distinct
    exact ih (distinctNames_insertSegments distinct)

def isDeclared (entries : List LocatedEntry) (path : List Bytes) : Bool :=
  entries.any fun entry => entry.path = path && entry.isDirectory

theorem visit_some {kind : Kind} (entry : LocatedEntry) :
    visit path (some kind) entry =
      some ⟨kind.isDirectory || (entry.path = path && entry.isDirectory), kind.size⟩ := by
  by_cases same : entry.path = path
  · simp [visit, same]
  · simp [visit, same, Ne.symm same]

theorem foldl_visit_some : ∀ {kind : Kind},
    entries.foldl (visit path) (some kind) =
      some ⟨kind.isDirectory || isDeclared entries path, kind.size⟩ := by
  induction entries with
  | nil => intro kind; simp [isDeclared]
  | cons entry entries ih =>
    intro kind
    rw [List.foldl_cons, visit_some, ih, isDeclared, isDeclared, List.any_cons, Bool.or_assoc]

theorem foldl_visit_none :
    entries.foldl (visit path) none =
      (entries.find? (path <+: ·.path)).map fun first =>
        (⟨first.path ≠ path || isDeclared entries path,
          if first.path = path && !first.isDirectory then first.size else 0⟩ : Kind) := by
  induction entries with
  | nil => rfl
  | cons entry entries ih =>
    rw [List.foldl_cons]
    by_cases inside : path <+: entry.path
    · rw [List.find?_cons_of_pos (by simpa using inside), visit, if_pos inside, foldl_visit_some]
      by_cases same : entry.path = path
      · cases directory : entry.isDirectory <;> simp [same, directory, isDeclared]
      · simp [same, Ne.symm same, isDeclared]
    · have different : entry.path ≠ path := by
        rintro rfl
        exact inside List.prefix_rfl
      rw [List.find?_cons_of_neg (by simpa using inside), visit, if_neg inside, ih]
      simp [isDeclared, different]

end Entries

section Consistency

variable {path : List Bytes} {entries : List LocatedEntry} {node found : VirtualNode}

/-- Only directories have children, and directories have no size. -/
def Consistent (tree : VirtualTree) : Prop :=
  tree.root.Everywhere fun node =>
    (node.children ≠ [] → node.isDirectory = true) ∧ (node.isDirectory = true → node.size = 0)

def IsParent (entries : List LocatedEntry) (path : List Bytes) : Prop :=
  ∃ entry ∈ entries, path <+: entry.path ∧ path ≠ entry.path

/-- Where a file with a path of its own (not the root) comes first, before all entries below it, a
directory entry follows if there are any, and if one follows then the file is empty. -/
def KindsAgree (entries : List LocatedEntry) : Prop :=
  ∀ file ∈ entries, file.path ≠ [] → file.isDirectory = false →
    entries.find? (file.path <+: ·.path) = some file →
      (IsParent entries file.path → isDeclared entries file.path = true) ∧
        (isDeclared entries file.path = true → file.size = 0)

instance (path : List Bytes) : Decidable (IsParent entries path) :=
  inferInstanceAs (Decidable (∃ entry ∈ entries, path <+: entry.path ∧ path ≠ entry.path))

instance : Decidable (KindsAgree entries) :=
  inferInstanceAs (Decidable (∀ file ∈ entries, file.path ≠ [] → file.isDirectory = false →
    entries.find? (file.path <+: ·.path) = some file →
      (IsParent entries file.path → isDeclared entries file.path = true) ∧
        (isDeclared entries file.path = true → file.size = 0)))

theorem isParent_iff :
    IsParent entries path ↔ ∃ name, entries.find? (path ++ [name] <+: ·.path) ≠ none := by
  constructor
  · rintro ⟨entry, member, ⟨rest, below⟩, different⟩
    cases rest with
    | nil => exact absurd (by rw [← below, List.append_nil]) different
    | cons name rest =>
      refine ⟨name, fun missing => ?_⟩
      apply List.find?_eq_none.mp missing entry member
      rw [← below]
      simp
  · rintro ⟨name, known⟩
    obtain ⟨entry, first⟩ := Option.ne_none_iff_exists'.mp known
    have inside : path ++ [name] <+: entry.path := by simpa using List.find?_some first
    refine ⟨entry, List.mem_of_find?_eq_some first, (List.prefix_append path [name]).trans inside, ?_⟩
    rintro rfl
    have longer := inside.length_le
    rw [List.length_append, List.length_singleton] at longer
    omega

theorem children_ne_nil_iff (reached : node.find path = some found) :
    found.children ≠ [] ↔ ∃ name, kindAt (path ++ [name]) node ≠ none := by
  have child : ∀ name, kindAt (path ++ [name]) node = kindAt [name] found := by
    intro name
    rw [kindAt, VirtualNode.find_append, reached, Option.bind_some, kindAt]
  simp only [child]
  constructor
  · intro nonempty
    obtain ⟨first, rest, children⟩ := List.exists_cons_of_ne_nil nonempty
    exact ⟨first.name, by simp [kindAt, VirtualNode.find, children]⟩
  · rintro ⟨name, known⟩ childless
    simp [kindAt, VirtualNode.find, childless] at known

def treeOf (entries : List LocatedEntry) : VirtualTree :=
  ⟨insertAll ({} : VirtualTree).root entries⟩

theorem kindAt_treeOf (nonempty : path ≠ []) :
    kindAt path (treeOf entries).root =
      (entries.find? (path <+: ·.path)).map fun first =>
        (⟨first.path ≠ path || isDeclared entries path,
          if first.path = path && !first.isDirectory then first.size else 0⟩ : Kind) := by
  obtain ⟨first, path, rfl⟩ := List.exists_cons_of_ne_nil nonempty
  rw [treeOf, kindAt_insertAll nonempty, ← foldl_visit_none]
  rfl

theorem children_treeOf_iff (reached : (treeOf entries).root.find path = some found) :
    found.children ≠ [] ↔ IsParent entries path := by
  rw [children_ne_nil_iff reached, isParent_iff]
  apply exists_congr
  intro name
  rw [kindAt_treeOf (by simp)]
  simp

theorem distinctNames_treeOf : (treeOf entries).root.Everywhere VirtualNode.DistinctNames :=
  distinctNames_insertAll (.intro List.nodup_nil nofun)

theorem consistent_treeOf_iff : Consistent (treeOf entries) ↔ KindsAgree entries := by
  rw [Consistent, VirtualNode.everywhere_iff_find distinctNames_treeOf]
  constructor
  · intro consistent file member nonempty isFile first
    have kind : kindAt file.path (treeOf entries).root =
        some ⟨isDeclared entries file.path, file.size⟩ := by
      rw [kindAt_treeOf nonempty, first]
      simp [isFile]
    obtain ⟨found, reached, same⟩ := Option.map_eq_some_iff.mp kind
    obtain ⟨directory, sized⟩ := Kind.mk.inj same
    have here := consistent file.path found reached
    rwa [directory, sized, children_treeOf_iff reached] at here
  · intro agree path found reached
    have kind : kindAt path (treeOf entries).root = some ⟨found.isDirectory, found.size⟩ := by
      rw [kindAt, reached, Option.map_some]
    by_cases nonempty : path = []
    · subst path
      have root : kindAt [] (treeOf entries).root = some ⟨true, 0⟩ := kindAt_nil_insertAll
      rw [root, Option.some.injEq] at kind
      obtain ⟨directory, sized⟩ := Kind.mk.inj kind
      exact ⟨fun _ => directory.symm, fun _ => sized.symm⟩
    · rw [kindAt_treeOf nonempty] at kind
      obtain ⟨first, isFirst, same⟩ := Option.map_eq_some_iff.mp kind
      obtain ⟨directory, sized⟩ := Kind.mk.inj same
      have member := List.mem_of_find?_eq_some isFirst
      rw [← directory, ← sized, children_treeOf_iff reached]
      by_cases here : first.path = path
      · subst path
        cases isFile : first.isDirectory with
        | false => simpa [isFile] using agree first member nonempty isFile isFirst
        | true =>
          have declared : isDeclared entries first.path = true :=
            List.any_eq_true.mpr ⟨first, member, by simp [isFile]⟩
          simp [declared]
      · simp [here]

theorem readTree_eq_ok {opened : Bool} {headers : List ArchiveHeader} {tree : VirtualTree}
    (read : readTree opened headers = .ok tree) : tree = treeOf (located headers) := by
  unfold readTree at read
  split at read
  · obtain ⟨root⟩ := tree
    exact congrArg VirtualTree.mk (readEntries_eq_ok read)
  · cases read

theorem readTree_consistent_iff (opened : Bool) (headers : List ArchiveHeader) (tree : VirtualTree)
    (read : readTree opened headers = .ok tree) :
    Consistent tree ↔ KindsAgree (located headers) := by
  rw [readTree_eq_ok read, consistent_treeOf_iff]

theorem readTree_consistent_iff_of_directory :
    ∃ tree, readTree true [.ok ⟨some [0x61], true, 0⟩, .ok ⟨some [0x61, 0x2F, 0x62], false, 1⟩] =
      .ok tree ∧ Consistent tree := by
  refine ⟨_, rfl, ?_⟩
  refine (readTree_consistent_iff true [.ok ⟨some [0x61], true, 0⟩,
    .ok ⟨some [0x61, 0x2F, 0x62], false, 1⟩] _ rfl).mpr ?_
  decide

theorem not_readTree_consistent_of_file :
    ∃ tree, readTree true [.ok ⟨some [0x61], false, 1⟩, .ok ⟨some [0x61, 0x2F, 0x62], false, 1⟩] =
      .ok tree ∧ ¬ Consistent tree := by
  refine ⟨⟨⟨[], true, 0, [⟨[0x61], false, 1, [⟨[0x62], false, 1, []⟩]⟩]⟩⟩, rfl, ?_⟩
  rintro ⟨_, below⟩
  obtain ⟨here, _⟩ := below ⟨[0x61], false, 1, [⟨[0x62], false, 1, []⟩]⟩ List.mem_cons_self
  exact absurd (here.1 (List.cons_ne_nil _ _)) (by decide)

end Consistency

end FastModManager.Infrastructure.LibArchiveReader
