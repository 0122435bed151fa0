import FastModManager.Core.PathNormalizer
import FastModManager.Foundation.Segments

namespace FastModManager.Core.PathNormalizer

open Foundation Domain

def keeps (segment : Bytes) : Bool := segment ≠ [] && segment ≠ [dot]

def kept (path : Bytes) : List Bytes := (path.splitOn slash).filter keeps

def clean (path : Bytes) : Bytes := [slash].intercalate (kept path)

/-- A path that stays below the directory in which it is looked up. -/
structure Safe (path : Bytes) : Prop where
  relative : path.head? ≠ some slash
  noDrive : ¬ startsWithDrive path
  noTraversal : dotDot ∉ path.splitOn slash

section Clean

variable {path : Bytes}

theorem mem_kept {segment : Bytes} (member : segment ∈ kept path) :
    slash ∉ segment ∧ segment ≠ [] ∧ segment ≠ [dot] := by
  obtain ⟨split, keeping⟩ := List.mem_filter.mp member
  simp only [keeps, ne_eq, Bool.and_eq_true, decide_eq_true_eq] at keeping
  exact ⟨Segments.sep_not_mem segment split, keeping⟩

theorem foldl_addSegment : (path.splitOn slash).foldl addSegment [] = clean path := by
  have step : addSegment = fun cleaned segment =>
      if keeps segment then Segments.join slash cleaned segment else cleaned := by
    funext cleaned segment
    simp [addSegment, keeps, Segments.join]
  rw [step, ← List.foldl_filter, clean]
  apply Segments.foldl_join
  intro segment member
  exact (mem_kept member).2.1

theorem splitOn_clean (nonempty : kept path ≠ []) : (clean path).splitOn slash = kept path :=
  List.splitOn_intercalate slash (fun _ member => (mem_kept member).1) nonempty

theorem clean_eq_nil (empty : kept path = []) : clean path = [] := by
  rw [clean, empty, List.intercalate_nil]

theorem kept_clean : kept (clean path) = kept path := by
  by_cases empty : kept path = []
  · rw [clean_eq_nil empty, empty]
    rfl
  · rw [kept, splitOn_clean empty, kept, List.filter_filter]
    simp

theorem clean_clean : clean (clean path) = clean path := by
  rw [clean, kept_clean, clean]

theorem head?_clean : (clean path).head? ≠ some slash := by
  intro absolute
  have nonempty : clean path ≠ [] := by
    intro empty
    rw [empty] at absolute
    cases absolute
  have first := (Segments.head?_eq_sep_iff nonempty).mp absolute
  rw [splitOn_clean (mt clean_eq_nil nonempty)] at first
  exact (mem_kept (List.mem_of_mem_head? first)).2.1 rfl

theorem dotDot_not_mem_clean (noTraversal : dotDot ∉ path.splitOn slash) :
    dotDot ∉ (clean path).splitOn slash := by
  by_cases empty : kept path = []
  · rw [clean_eq_nil empty]
    decide
  · rw [splitOn_clean empty]
    exact fun member => noTraversal (List.mem_filter.mp member).1

theorem mem_clean {byte : UInt8} (member : byte ∈ clean path) : byte = slash ∨ byte ∈ path := by
  apply (Segments.mem_intercalate member).imp_right
  rintro ⟨segment, among, inside⟩
  exact (Segments.infix_of_mem_splitOn (List.mem_filter.mp among).1).subset inside

theorem startsWithDrive_takeWhile :
    startsWithDrive (path.takeWhile (· ≠ slash)) = startsWithDrive path := by
  match path with
  | [] => rfl
  | [first] => by_cases same : first = slash <;> simp [same, startsWithDrive]
  | first :: second :: rest =>
    by_cases firstSame : first = slash
    · have letter : isAlpha slash = false := rfl
      simp [firstSame, startsWithDrive, letter]
    · by_cases secondSame : second = slash
      · have different : slash ≠ colon := by decide
        simp [firstSame, secondSame, startsWithDrive, different]
      · simp [firstSame, secondSame, startsWithDrive]

theorem startsWithDrive_of_head? {segment : Bytes}
    (first : (path.splitOn slash).head? = some segment) :
    startsWithDrive segment = startsWithDrive path := by
  rw [Segments.head?_splitOn, Option.some.injEq] at first
  rw [← first, startsWithDrive_takeWhile]

theorem startsWithDrive_clean_iff :
    startsWithDrive (clean path) = true ↔
      ∃ segment, (path.splitOn slash).find? keeps = some segment ∧
        startsWithDrive segment = true := by
  rw [← List.head?_filter]
  change _ ↔ ∃ segment, (kept path).head? = some segment ∧ _
  by_cases empty : kept path = []
  · rw [clean_eq_nil empty, empty]
    simp [startsWithDrive]
  · obtain ⟨first, rest, split⟩ := List.exists_cons_of_ne_nil empty
    have starts : ((clean path).splitOn slash).head? = some first := by
      rw [splitOn_clean empty, split, List.head?_cons]
    rw [← startsWithDrive_of_head? starts, split]
    simp

end Clean

section Normalize

variable {rawPath path : Bytes}

theorem traversal_iff :
    (path = dotDot ∨ dotDot ++ [slash] <+: path ∨ slash :: dotDot <:+ path ∨
        slash :: (dotDot ++ [slash]) <:+: path) ↔ dotDot ∈ path.splitOn slash :=
  (Segments.mem_splitOn_iff (by decide)).symm

theorem replaceBackslashes_eq_self (free : backslash ∉ path) : replaceBackslashes path = path := by
  have same : path.map (fun byte => if byte = backslash then slash else byte) = path.map id := by
    apply List.map_congr_left
    rintro byte member
    apply if_neg
    rintro rfl
    exact free member
  rw [replaceBackslashes, same, List.map_id]

theorem backslash_not_mem_replaceBackslashes : backslash ∉ replaceBackslashes path := by
  intro member
  obtain ⟨byte, _, replaced⟩ := List.mem_map.mp member
  split at replaced
  · exact absurd replaced (by decide)
  · rename_i different
    exact different replaced

theorem normalizeArchiveEntry_eq :
    normalizeArchiveEntry rawPath =
      if (replaceBackslashes rawPath).head? = some slash ∨
          startsWithDrive (replaceBackslashes rawPath) = true then .error .absoluteNotAllowed
      else if dotDot ∈ (replaceBackslashes rawPath).splitOn slash then .error .traversalNotAllowed
      else .ok (clean (replaceBackslashes rawPath)) := by
  unfold normalizeArchiveEntry
  by_cases empty : rawPath = []
  · rw [if_pos empty, empty]
    rfl
  · simp only [if_neg empty, traversal_iff, foldl_addSegment]
    by_cases absolute : (replaceBackslashes rawPath).head? = some slash
    · rw [if_pos absolute, if_pos (.inl absolute)]
    · rw [if_neg absolute]
      by_cases drive : startsWithDrive (replaceBackslashes rawPath) = true
      · rw [if_pos drive, if_pos (.inr drive)]
      · rw [if_neg drive, if_neg (not_or.mpr ⟨absolute, drive⟩)]

theorem normalizeArchiveEntry_eq_ok_iff {cleaned : Bytes} :
    normalizeArchiveEntry rawPath = .ok cleaned ↔
      Safe (replaceBackslashes rawPath) ∧ clean (replaceBackslashes rawPath) = cleaned := by
  rw [normalizeArchiveEntry_eq]
  constructor
  · intro accepted
    split at accepted
    · cases accepted
    · rename_i relative
      obtain ⟨head, drive⟩ := not_or.mp relative
      split at accepted
      · cases accepted
      · rename_i noTraversal
        exact ⟨⟨head, drive, noTraversal⟩, Except.ok.inj accepted⟩
  · rintro ⟨safe, rfl⟩
    rw [if_neg (not_or.mpr ⟨safe.relative, safe.noDrive⟩), if_neg safe.noTraversal]

theorem normalizeArchiveEntry_clean (safe : Safe (replaceBackslashes rawPath)) :
    Safe (clean (replaceBackslashes rawPath)) ∧
        normalizeArchiveEntry (clean (replaceBackslashes rawPath)) =
          .ok (clean (replaceBackslashes rawPath)) ↔
      ¬ startsWithDrive (clean (replaceBackslashes rawPath)) = true := by
  have free : backslash ∉ clean (replaceBackslashes rawPath) := by
    intro member
    rcases mem_clean member with same | inside
    · exact absurd same (by decide)
    · exact backslash_not_mem_replaceBackslashes inside
  rw [normalizeArchiveEntry_eq_ok_iff, replaceBackslashes_eq_self free]
  constructor
  · exact fun ⟨cleanSafe, _⟩ => cleanSafe.noDrive
  · intro noDrive
    have cleanSafe : Safe (clean (replaceBackslashes rawPath)) :=
      ⟨head?_clean, noDrive, dotDot_not_mem_clean safe.noTraversal⟩
    exact ⟨cleanSafe, cleanSafe, clean_clean⟩

/-- A drive that stands behind a first segment `.` and is not refused. -/
def HiddenDrive (rawPath : Bytes) : Prop :=
  let segments := (replaceBackslashes rawPath).splitOn slash
  segments.head? = some [dot] ∧ dotDot ∉ segments ∧
    ∃ segment, segments.find? keeps = some segment ∧ startsWithDrive segment = true

theorem hiddenDrive_iff :
    HiddenDrive rawPath ↔ Safe (replaceBackslashes rawPath) ∧
      startsWithDrive (clean (replaceBackslashes rawPath)) = true := by
  rw [HiddenDrive, startsWithDrive_clean_iff]
  generalize replaceBackslashes rawPath = path
  constructor
  · rintro ⟨first, noTraversal, drive⟩
    have relative : path.head? ≠ some slash := by
      intro absolute
      have nonempty : path ≠ [] := by
        rintro rfl
        cases absolute
      rw [(Segments.head?_eq_sep_iff nonempty).mp absolute] at first
      cases first
    have noDrive : ¬ startsWithDrive path = true := by
      rw [← startsWithDrive_of_head? first]
      decide
    exact ⟨⟨relative, noDrive, noTraversal⟩, drive⟩
  · rintro ⟨safe, segment, found, drive⟩
    refine ⟨?_, safe.noTraversal, segment, found, drive⟩
    obtain ⟨first, rest, split⟩ := List.exists_cons_of_ne_nil (List.splitOn_ne_nil slash path)
    have starts : (path.splitOn slash).head? = some first := by rw [split, List.head?_cons]
    by_cases keeping : keeps first = true
    · rw [split, List.find?_cons_of_pos keeping, Option.some.injEq] at found
      rw [← found, startsWithDrive_of_head? starts] at drive
      exact absurd drive safe.noDrive
    · have dropped : first = [] ∨ first = [dot] := by
        simpa [keeps, or_iff_not_imp_left] using keeping
      rcases dropped with rfl | rfl
      · have nonempty : path ≠ [] := by
          rintro rfl
          cases found
        exact absurd ((Segments.head?_eq_sep_iff nonempty).mpr starts) safe.relative
      · exact starts

theorem accepts_only_safe_iff (rawPath : Bytes) :
    (∀ cleaned, normalizeArchiveEntry rawPath = .ok cleaned →
        Safe cleaned ∧ normalizeArchiveEntry cleaned = .ok cleaned) ↔ ¬ HiddenDrive rawPath := by
  rw [hiddenDrive_iff, not_and]
  constructor
  · intro accepted safe
    have result := normalizeArchiveEntry_eq_ok_iff.mpr ⟨safe, rfl⟩
    exact (normalizeArchiveEntry_clean safe).mp (accepted _ result)
  · intro noDrive cleaned result
    obtain ⟨safe, rfl⟩ := normalizeArchiveEntry_eq_ok_iff.mp result
    exact (normalizeArchiveEntry_clean safe).mpr (noDrive safe)

/-- `./C:/x` is cleaned to `C:/x`. -/
theorem not_accepts_only_safe_of_dot :
    normalizeArchiveEntry [0x2E, 0x2F, 0x43, 0x3A, 0x2F, 0x78] = .ok [0x43, 0x3A, 0x2F, 0x78] ∧
      ¬ Safe [0x43, 0x3A, 0x2F, 0x78] ∧
      normalizeArchiveEntry [0x43, 0x3A, 0x2F, 0x78] = .error .absoluteNotAllowed :=
  ⟨by decide, fun safe => safe.noDrive (by decide), by decide⟩

end Normalize

section Segments

variable {path : Bytes}

inductive Absolute : Bytes → Prop
  | root (rest : Bytes) : Absolute (slash :: rest)
  | drive (letter : UInt8) (rest : Bytes) :
      0x41 ≤ letter ∧ letter ≤ 0x5A ∨ 0x61 ≤ letter ∧ letter ≤ 0x7A →
      Absolute (letter :: colon :: rest)

theorem isAlpha_iff {letter : UInt8} :
    isAlpha letter = true ↔
      0x41 ≤ letter ∧ letter ≤ 0x5A ∨ 0x61 ≤ letter ∧ letter ≤ 0x7A := by
  simp [isAlpha]

theorem absolute_iff : Absolute path ↔ path.head? = some slash ∨ startsWithDrive path = true := by
  constructor
  · rintro (⟨rest⟩ | ⟨letter, rest, isLetter⟩)
    · exact .inl rfl
    · exact .inr (by simp [startsWithDrive, isAlpha_iff.mpr isLetter])
  · match path with
    | [] => simp [startsWithDrive]
    | [first] =>
      rintro (head | drive)
      · obtain rfl : first = slash := by simpa using head
        exact .root []
      · simp [startsWithDrive] at drive
    | first :: second :: rest =>
      rintro (head | drive)
      · obtain rfl : first = slash := by simpa using head
        exact .root _
      · simp only [startsWithDrive, Bool.and_eq_true, beq_iff_eq] at drive
        obtain ⟨letter, rfl⟩ := drive
        exact .drive first rest (isAlpha_iff.mp letter)

theorem getLast?_clean : (clean path).getLast? ≠ some slash := by
  intro trailing
  obtain ⟨before, ending⟩ := List.getLast?_eq_some_iff.mp trailing
  have nonempty : kept path ≠ [] := by
    intro empty
    rw [clean_eq_nil empty] at ending
    simp at ending
  have last : [] ∈ (clean path).splitOn slash := by
    rw [Segments.mem_splitOn_iff List.not_mem_nil]
    exact .inr (.inr (.inl ⟨before, ending.symm⟩))
  rw [splitOn_clean nonempty] at last
  exact (mem_kept last).2.1 rfl

theorem normalizeArchiveEntry_by_segments (rawPath : Bytes) :
    let path := replaceBackslashes rawPath
    let segments := path.splitOn slash
    (Absolute path → normalizeArchiveEntry rawPath = .error .absoluteNotAllowed) ∧
      (¬ Absolute path → dotDot ∈ segments →
        normalizeArchiveEntry rawPath = .error .traversalNotAllowed) ∧
      (¬ Absolute path → dotDot ∉ segments →
        ∃ cleaned, normalizeArchiveEntry rawPath = .ok cleaned ∧
          cleaned = [slash].intercalate
            (segments.filter fun segment => segment ≠ [] ∧ segment ≠ [dot]) ∧
          cleaned.head? ≠ some slash ∧ cleaned.getLast? ≠ some slash) := by
  intro path segments
  rw [normalizeArchiveEntry_eq, absolute_iff]
  refine ⟨fun absolute => if_pos absolute, fun relative traversal => ?_,
    fun relative noTraversal => ⟨clean path, ?_, ?_, head?_clean, getLast?_clean⟩⟩
  · rw [if_neg relative, if_pos traversal]
  · rw [if_neg relative, if_neg noTraversal]
  · have same : keeps = fun segment => decide (segment ≠ [] ∧ segment ≠ [dot]) := by
      funext segment
      simp [keeps]
    rw [clean, kept, same]

end Segments

end FastModManager.Core.PathNormalizer
