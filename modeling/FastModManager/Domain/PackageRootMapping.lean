import FastModManager.Domain.Package
import FastModManager.Foundation.Segments

namespace FastModManager.Domain.PackageRootMapping

open Foundation

def map (mapping : PackageRootMapping) (packagePath : PackageRelativePath) :
    Option GameRelativePath :=
  let packageRootBytes := mapping.packageRoot.nativeBytes
  let packagePathBytes := packagePath.nativeBytes
  if packageRootBytes = [] then none
  else if packagePathBytes = packageRootBytes then some mapping.gameRoot
  else if packagePathBytes.length ≤ packageRootBytes.length ∨
      ¬ packageRootBytes <+: packagePathBytes ∨
      packagePathBytes[packageRootBytes.length]? ≠ some slash then none
  else
    let suffix := packagePathBytes.drop (packageRootBytes.length + 1)
    if mapping.gameRoot.nativeBytes = [] then some ⟨suffix⟩
    else some ⟨mapping.gameRoot.nativeBytes ++ [slash] ++ suffix⟩

def under (root suffix : Bytes) : Bytes := if root = [] then suffix else root ++ slash :: suffix

/-- Where a mapping is defined: on its root, and on what is a separator further below it. -/
inductive Maps (mapping : PackageRootMapping) : Bytes → Bytes → Prop
  | root : Maps mapping mapping.packageRoot.nativeBytes mapping.gameRoot.nativeBytes
  | below (suffix : Bytes) : Maps mapping (mapping.packageRoot.nativeBytes ++ slash :: suffix)
      (under mapping.gameRoot.nativeBytes suffix)

variable {mapping : PackageRootMapping} {path : PackageRelativePath} {game : GameRelativePath}

theorem map_root (nonempty : mapping.packageRoot.nativeBytes ≠ []) :
    mapping.map mapping.packageRoot = some mapping.gameRoot := by
  simp [map, nonempty]

theorem map_below (nonempty : mapping.packageRoot.nativeBytes ≠ []) (suffix : Bytes) :
    mapping.map ⟨mapping.packageRoot.nativeBytes ++ slash :: suffix⟩ =
      some ⟨under mapping.gameRoot.nativeBytes suffix⟩ := by
  have rest : (mapping.packageRoot.nativeBytes ++ slash :: suffix).drop
      (mapping.packageRoot.nativeBytes.length + 1) = suffix := by
    rw [List.drop_length_add_append, List.drop_succ_cons, List.drop_zero]
  by_cases atRoot : mapping.gameRoot.nativeBytes = []
  · simp [map, under, nonempty, rest, atRoot]
  · simp [map, under, nonempty, rest, atRoot]

theorem of_map (mapped : mapping.map path = some game) :
    mapping.packageRoot.nativeBytes ≠ [] ∧
      (path = mapping.packageRoot ∨
        ∃ suffix, path = ⟨mapping.packageRoot.nativeBytes ++ slash :: suffix⟩) := by
  obtain ⟨⟨root⟩, target⟩ := mapping
  obtain ⟨bytes⟩ := path
  simp only [map] at mapped
  split at mapped
  · cases mapped
  · rename_i nonempty
    refine ⟨nonempty, ?_⟩
    split at mapped
    · rename_i same
      exact .inl (by rw [same])
    · split at mapped
      · cases mapped
      · rename_i guards
        simp only [not_or, not_not] at guards
        obtain ⟨_, ⟨rest, rfl⟩, separated⟩ := guards
        rw [List.getElem?_append_right (le_refl _), Nat.sub_self] at separated
        cases rest with
        | nil => cases separated
        | cons first suffix =>
          obtain rfl := Option.some.inj separated
          exact .inr ⟨suffix, rfl⟩

theorem map_eq_some_iff : mapping.map path = some game ↔
    mapping.packageRoot.nativeBytes ≠ [] ∧ Maps mapping path.nativeBytes game.nativeBytes := by
  constructor
  · intro mapped
    obtain ⟨nonempty, rfl | ⟨suffix, rfl⟩⟩ := of_map mapped
    · rw [map_root nonempty, Option.some.injEq] at mapped
      exact ⟨nonempty, mapped ▸ .root⟩
    · rw [map_below nonempty, Option.some.injEq] at mapped
      exact ⟨nonempty, mapped ▸ .below suffix⟩
  · obtain ⟨bytes⟩ := path
    obtain ⟨result⟩ := game
    rintro ⟨nonempty, ⟨⟩ | ⟨suffix⟩⟩
    · exact map_root nonempty
    · exact map_below nonempty suffix

section Segments

open Foundation.Segments (pieces)

theorem intercalate_pieces_append (root suffix : Bytes) :
    [slash].intercalate (pieces slash root ++ suffix.splitOn slash) = under root suffix := by
  by_cases empty : root = []
  · rw [empty, pieces, if_pos rfl, List.nil_append, List.intercalate_splitOn, under, if_pos rfl]
  · rw [pieces, if_neg empty, Segments.intercalate_append (List.splitOn_ne_nil _ _)
      (List.splitOn_ne_nil _ _), List.intercalate_splitOn, List.intercalate_splitOn, under,
      if_neg empty]

theorem map_by_segments (mapping : PackageRootMapping) (path : PackageRelativePath) :
    ((∃ game, mapping.map path = some game) ↔ mapping.packageRoot.nativeBytes ≠ [] ∧
      mapping.packageRoot.nativeBytes.splitOn slash <+: path.nativeBytes.splitOn slash) ∧
    ∀ game rest, mapping.map path = some game →
      path.nativeBytes.splitOn slash = mapping.packageRoot.nativeBytes.splitOn slash ++ rest →
      game.nativeBytes = [slash].intercalate (pieces slash mapping.gameRoot.nativeBytes ++ rest) := by
  constructor
  · rw [Segments.splitOn_prefix_iff]
    constructor
    · rintro ⟨game, mapped⟩
      obtain ⟨nonempty, rfl | ⟨suffix, rfl⟩⟩ := of_map mapped
      · exact ⟨nonempty, .inl rfl⟩
      · exact ⟨nonempty, .inr ⟨suffix, rfl⟩⟩
    · obtain ⟨bytes⟩ := path
      rintro ⟨nonempty, rfl | ⟨suffix, rfl⟩⟩
      · exact ⟨_, map_root nonempty⟩
      · exact ⟨_, map_below nonempty suffix⟩
  · intro game rest mapped split
    obtain ⟨_, maps⟩ := map_eq_some_iff.mp mapped
    generalize game.nativeBytes = result, path.nativeBytes = bytes at maps split ⊢
    cases maps with
    | root =>
      have none : rest = [] := by simpa using split
      rw [none, List.append_nil, Segments.intercalate_pieces]
    | below suffix =>
      rw [List.splitOn_append_cons_self, List.append_cancel_left_eq] at split
      rw [← split, intercalate_pieces_append]

end Segments

section Collisions

variable {left right target target' root suffix suffix' : Bytes}

theorem under_inj : under root suffix = under root suffix' ↔ suffix = suffix' := by
  by_cases empty : root = []
  · rw [under, under, if_pos empty, if_pos empty]
  · simp [under, empty]

theorem under_eq_root_iff : under root suffix = root ↔ root = [] ∧ suffix = [] := by
  by_cases empty : root = []
  · simp [under, empty]
  · simp [under, empty]

theorem Maps.inj_iff (maps : Maps mapping left target) (maps' : Maps mapping right target')
    (differs : left ≠ right) :
    target = target' ↔ mapping.gameRoot.nativeBytes = [] ∧
      ((left = mapping.packageRoot.nativeBytes ∧
          right = mapping.packageRoot.nativeBytes ++ [slash]) ∨
        left = mapping.packageRoot.nativeBytes ++ [slash] ∧
          right = mapping.packageRoot.nativeBytes) := by
  cases maps with
  | root =>
    cases maps' with
    | root => exact absurd rfl differs
    | below suffix =>
      rw [eq_comm, under_eq_root_iff]
      simp
  | below suffix =>
    cases maps' with
    | root => simp [under_eq_root_iff]
    | below suffix' =>
      have apart : suffix ≠ suffix' := by
        rintro rfl
        exact differs rfl
      simp [under_inj, apart]

theorem Maps.head?_iff (maps : Maps mapping left target)
    (relative : mapping.gameRoot.nativeBytes.head? ≠ some slash) :
    target.head? = some slash ↔ mapping.gameRoot.nativeBytes = [] ∧
      mapping.packageRoot.nativeBytes ++ [slash, slash] <+: left := by
  cases maps with
  | root =>
    have short : ¬ mapping.packageRoot.nativeBytes ++ [slash, slash] <+:
        mapping.packageRoot.nativeBytes := by
      intro longer
      have length := longer.length_le
      simp only [List.length_append, List.length_cons] at length
      omega
    simp [relative, short]
  | below suffix =>
    by_cases empty : mapping.gameRoot.nativeBytes = []
    · rw [under, if_pos empty, and_iff_right empty, List.prefix_append_right_inj,
        List.cons_prefix_cons, and_iff_right rfl]
      cases suffix with
      | nil => simp
      | cons first rest => simp [List.cons_prefix_cons, eq_comm]
    · rw [under, if_neg empty, List.head?_append_of_ne_nil _ empty]
      simp [relative, empty]

/-- Distinct paths stay distinct and below the game's directory, but for what an empty game root
makes of a separator at the end of the package root, and of a doubled one behind it. -/
theorem map_distinct_and_relative_iff (mapping : PackageRootMapping)
    (left right : PackageRelativePath) (leftGame rightGame : GameRelativePath)
    (relative : mapping.gameRoot.nativeBytes.head? ≠ some slash) (differs : left ≠ right)
    (mappedLeft : mapping.map left = some leftGame)
    (mappedRight : mapping.map right = some rightGame) :
    (leftGame = rightGame ↔ mapping.gameRoot.nativeBytes = [] ∧
      ((left.nativeBytes = mapping.packageRoot.nativeBytes ∧
          right.nativeBytes = mapping.packageRoot.nativeBytes ++ [slash]) ∨
        left.nativeBytes = mapping.packageRoot.nativeBytes ++ [slash] ∧
          right.nativeBytes = mapping.packageRoot.nativeBytes)) ∧
    (leftGame.nativeBytes.head? = some slash ↔ mapping.gameRoot.nativeBytes = [] ∧
      mapping.packageRoot.nativeBytes ++ [slash, slash] <+: left.nativeBytes) ∧
    (rightGame.nativeBytes.head? = some slash ↔ mapping.gameRoot.nativeBytes = [] ∧
      mapping.packageRoot.nativeBytes ++ [slash, slash] <+: right.nativeBytes) := by
  obtain ⟨_, maps⟩ := map_eq_some_iff.mp mappedLeft
  obtain ⟨_, maps'⟩ := map_eq_some_iff.mp mappedRight
  have bytesDiffer : left.nativeBytes ≠ right.nativeBytes := by
    intro same
    obtain ⟨bytes⟩ := left
    exact differs (congrArg PackageRelativePath.mk same)
  rw [← GameRelativePath.nativeBytes_inj]
  exact ⟨maps.inj_iff maps' bytesDiffer, maps.head?_iff relative, maps'.head?_iff relative⟩

theorem map_distinct_and_relative_iff_of_data :
    let mapping : PackageRootMapping := ⟨⟨[0x44]⟩, ⟨[0x44]⟩⟩
    ((⟨[0x44, 0x2F, 0x61]⟩ : GameRelativePath) = ⟨[0x44, 0x2F, 0x62]⟩ ↔
      mapping.gameRoot.nativeBytes = [] ∧
        (([0x44, 0x2F, 0x61] = mapping.packageRoot.nativeBytes ∧
            [0x44, 0x2F, 0x62] = mapping.packageRoot.nativeBytes ++ [slash]) ∨
          [0x44, 0x2F, 0x61] = mapping.packageRoot.nativeBytes ++ [slash] ∧
            [0x44, 0x2F, 0x62] = mapping.packageRoot.nativeBytes)) :=
  (map_distinct_and_relative_iff ⟨⟨[0x44]⟩, ⟨[0x44]⟩⟩ ⟨[0x44, 0x2F, 0x61]⟩ ⟨[0x44, 0x2F, 0x62]⟩
    ⟨[0x44, 0x2F, 0x61]⟩ ⟨[0x44, 0x2F, 0x62]⟩ (by decide) (by decide) (by decide) (by decide)).1

/-- `R` and `R/` are both the directory of the game, and `R//x` is absolute there. -/
theorem not_map_distinct_and_relative :
    (¬ ∀ (mapping : PackageRootMapping) (left right : PackageRelativePath)
        (leftGame rightGame : GameRelativePath),
      mapping.packageRoot.nativeBytes.head? ≠ some slash →
      mapping.gameRoot.nativeBytes.head? ≠ some slash → left ≠ right →
      left.nativeBytes.head? ≠ some slash → right.nativeBytes.head? ≠ some slash →
      mapping.map left = some leftGame → mapping.map right = some rightGame →
      leftGame ≠ rightGame ∧ leftGame.nativeBytes.head? ≠ some slash ∧
        rightGame.nativeBytes.head? ≠ some slash) ∧
    map ⟨⟨[0x52]⟩, ⟨[]⟩⟩ ⟨[0x52, 0x2F, 0x2F, 0x78]⟩ = some ⟨[0x2F, 0x78]⟩ := by
  refine ⟨fun holds => ?_, by decide⟩
  have distinct := holds ⟨⟨[0x52]⟩, ⟨[]⟩⟩ ⟨[0x52]⟩ ⟨[0x52, 0x2F]⟩ ⟨[]⟩ ⟨[]⟩ (by decide) (by decide)
    (by decide) (by decide) (by decide) (by decide) (by decide)
  exact distinct.1 rfl

end Collisions

end FastModManager.Domain.PackageRootMapping
