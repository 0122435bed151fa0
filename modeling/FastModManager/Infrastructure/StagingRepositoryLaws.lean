import FastModManager.Infrastructure.StagingRepository
import Mathlib.Algebra.GroupWithZero.Nat

namespace FastModManager.Infrastructure.StagingRepository

open Foundation Domain

section Outcomes

variable (reads : Nat → ReadOutcome) (writes : Nat → WriteOutcome)

def chunk : ReadOutcome → Nat
  | .delivers extra => min (extra + 1) bufferSize
  | .fails => 0

def position (rounds : Nat) : Nat := ((List.range rounds).map fun round => chunk (reads round)).sum

def Smooth (rounds : Nat) : Prop :=
  ∀ round < rounds, reads round ≠ .fails ∧ writes round = .complete

/-- A read fails before the end of the source, and no write before it was short. -/
def Interrupted (source : Bytes) : Prop :=
  ∃ round, reads round = .fails ∧ Smooth reads writes round ∧ position reads round < source.length

variable {reads writes} {round round' : Nat} {source remaining : Bytes}

theorem position_succ :
    position reads (round + 1) = position reads round + chunk (reads round) := by
  simp [position, List.range_succ]

theorem position_le (later : round ≤ round') : position reads round ≤ position reads round' := by
  induction later with
  | refl => exact Nat.le_refl _
  | step _ ih =>
    rw [position_succ]
    omega

theorem Smooth.succ (smooth : Smooth reads writes round) (delivered : reads round ≠ .fails)
    (complete : writes round = .complete) : Smooth reads writes (round + 1) := by
  intro earlier bound
  rcases Nat.lt_succ_iff_lt_or_eq.mp bound with before | rfl
  · exact smooth earlier before
  · exact ⟨delivered, complete⟩

theorem read_eq_take (outcome : ReadOutcome) :
    read outcome remaining = remaining.take (chunk outcome) := by
  cases outcome with
  | delivers extra => rfl
  | fails => rw [chunk, List.take_zero, read]

theorem chunk_pos {outcome : ReadOutcome} (delivered : outcome ≠ .fails) : 0 < chunk outcome := by
  cases outcome with
  | delivers extra => simp [chunk, bufferSize]
  | fails => exact absurd rfl delivered

theorem read_ne_nil {outcome : ReadOutcome} (delivered : outcome ≠ .fails)
    (unread : remaining ≠ []) : read outcome remaining ≠ [] := by
  have positive := chunk_pos delivered
  rw [read_eq_take, ne_eq, List.take_eq_nil_iff, not_or]
  exact ⟨by omega, unread⟩

theorem drop_read (outcome : ReadOutcome) :
    remaining.drop (read outcome remaining).length = remaining.drop (chunk outcome) := by
  rw [read_eq_take, List.length_take]
  rcases Nat.le_total (chunk outcome) remaining.length with enough | less
  · rw [Nat.min_eq_left enough]
  · rw [Nat.min_eq_right less, List.drop_length, List.drop_eq_nil_of_le less]

theorem write_returns_length_iff {outcome : WriteOutcome} {buffer : Bytes}
    (nonempty : buffer ≠ []) :
    (write outcome buffer).2 = buffer.length ↔ outcome = .complete := by
  have long := List.length_pos_iff.mpr nonempty
  cases outcome with
  | complete => simp [write]
  | short count =>
    have shorter : (buffer.take (min count (buffer.length - 1))).length ≠ buffer.length := by
      rw [List.length_take]
      omega
    exact iff_of_false (mt Int.ofNat_inj.mp shorter) nofun
  | fails => simp [write]

end Outcomes

section Copy

variable {reads : Nat → ReadOutcome} {writes : Nat → WriteOutcome}
variable {requireChecksum progress : Bool} {source : Bytes} {fileSize : Nat} {state : CopyState}

structure Copying (reads : Nat → ReadOutcome) (writes : Nat → WriteOutcome) (requireChecksum : Bool)
    (source : Bytes) (state : CopyState) : Prop where
  smooth : Smooth reads writes state.round
  remaining : state.remaining = source.drop (position reads state.round)
  output : state.output = source.take (position reads state.round)
  hashed : state.hashed = if requireChecksum then state.output else []

theorem Copying.remaining_eq_nil_iff (copying : Copying reads writes requireChecksum source state) :
    state.remaining = [] ↔ source.length ≤ position reads state.round := by
  rw [copying.remaining, List.drop_eq_nil_iff]

theorem Copying.initial :
    Copying reads writes requireChecksum source ⟨0, source, [], [], 0, []⟩ where
  smooth := nofun
  remaining := rfl
  output := rfl
  hashed := by simp

theorem Copying.next (copying : Copying reads writes requireChecksum source state)
    (unread : state.remaining ≠ []) (delivered : reads state.round ≠ .fails)
    (complete : writes state.round = .complete) :
    ∃ next, copyStep reads writes requireChecksum progress fileSize state = .ok (.inl next) ∧
      Copying reads writes requireChecksum source next ∧
        next.remaining.length < state.remaining.length := by
  have nonempty := read_ne_nil delivered unread
  have whole := (write_returns_length_iff nonempty).mpr (rfl : WriteOutcome.complete = .complete)
  simp only [copyStep, if_neg unread, if_neg nonempty, complete, whole, ne_eq, not_true_eq_false,
    if_false]
  refine ⟨_, rfl, ⟨copying.smooth.succ delivered complete, ?_, ?_, ?_⟩, ?_⟩
  · change state.remaining.drop (read _ _).length = source.drop (position reads (state.round + 1))
    rw [drop_read, copying.remaining, List.drop_drop, position_succ]
  · change state.output ++ read _ _ = source.take (position reads (state.round + 1))
    rw [copying.output, read_eq_take, copying.remaining, position_succ, List.take_add]
  · have hashed := copying.hashed
    cases requireChecksum with
    | true => exact congrArg (· ++ read (reads state.round) state.remaining) hashed
    | false => exact hashed
  · have taken := List.length_pos_iff.mpr nonempty
    have left := List.length_pos_iff.mpr unread
    rw [List.length_drop]
    omega

def EndsCopying (reads : Nat → ReadOutcome) (writes : Nat → WriteOutcome) (requireChecksum : Bool)
    (source : Bytes) : CopyEnd → Prop
  | .copied state => Copying reads writes requireChecksum source state ∧
      (state.remaining = [] ∨ reads state.round = .fails)
  | .shortWrite _ => ∃ round, Smooth reads writes round ∧ reads round ≠ .fails ∧
      writes round ≠ .complete

theorem Copying.last (copying : Copying reads writes requireChecksum source state)
    (last : state.remaining = [] ∨ reads state.round = .fails ∨ writes state.round ≠ .complete) :
    ∃ ending, copyStep reads writes requireChecksum progress fileSize state = .ok (.inr ending) ∧
      EndsCopying reads writes requireChecksum source ending := by
  by_cases unread : state.remaining = []
  · refine ⟨.copied state, ?_, copying, .inl unread⟩
    rw [copyStep, if_pos unread]
    rfl
  · by_cases delivered : reads state.round = .fails
    · refine ⟨.copied state, ?_, copying, .inr delivered⟩
      rw [copyStep, if_neg unread, delivered]
      rfl
    · have short := (last.resolve_left unread).resolve_left delivered
      have nonempty := read_ne_nil delivered unread
      have partly := mt (write_returns_length_iff nonempty).mp short
      obtain ⟨state', ended⟩ : ∃ state', copyStep reads writes requireChecksum progress fileSize
          state = .ok (.inr (.shortWrite state')) := by
        simp only [copyStep, if_neg unread, if_neg nonempty, ne_eq, if_pos partly]
        exact ⟨_, rfl⟩
      exact ⟨.shortWrite state', ended, state.round, copying.smooth, delivered, short⟩

theorem copy_total : ∃ ending, copy reads writes requireChecksum progress source = .ok ending ∧
    EndsCopying reads writes requireChecksum source ending := by
  refine iterate_total (Copying reads writes requireChecksum source)
    (fun state => state.remaining.length) ?_ Copying.initial (Nat.lt_succ_self _)
  intro state copying
  by_cases last : state.remaining = [] ∨ reads state.round = .fails ∨ writes state.round ≠ .complete
  · exact .inr (copying.last last)
  · simp only [not_or, not_not] at last
    obtain ⟨unread, delivered, complete⟩ := last
    exact .inl (copying.next unread delivered complete)

theorem Copying.output_eq_iff (copying : Copying reads writes requireChecksum source state)
    (last : state.remaining = [] ∨ reads state.round = .fails) :
    state.output = source ↔ ¬ Interrupted reads writes source := by
  have whole_iff : state.output = source ↔ source.length ≤ position reads state.round := by
    rw [copying.output]
    constructor
    · intro whole
      have length := congrArg List.length whole
      rw [List.length_take] at length
      omega
    · exact List.take_of_length_le
  rw [whole_iff]
  constructor
  · rintro whole ⟨round, failed, smooth, before⟩
    rcases Nat.lt_or_ge round state.round with earlier | later
    · exact (copying.smooth round earlier).1 failed
    · have reached : position reads state.round ≤ position reads round := position_le later
      omega
  · intro uninterrupted
    by_contra cut
    rw [Nat.not_le] at cut
    have unread : state.remaining ≠ [] := by
      rw [ne_eq, copying.remaining_eq_nil_iff]
      omega
    exact uninterrupted ⟨state.round, last.resolve_left unread, copying.smooth, cut⟩

theorem not_interrupted_of_short {round : Nat} (smooth : Smooth reads writes round)
    (delivered : reads round ≠ .fails) (short : writes round ≠ .complete) :
    ¬ Interrupted reads writes source := by
  rintro ⟨round', failed, smooth', _⟩
  rcases Nat.lt_trichotomy round' round with earlier | rfl | later
  · exact (smooth round' earlier).1 failed
  · exact delivered failed
  · exact short (smooth' round later).2

end Copy

section Stage

variable {faults : SetupFaults} {contents : Option Bytes} {sourcePath : Bytes}
variable {policy : StagingPolicy} {hash : QCryptographicHash} {reads : Nat → ReadOutcome}
variable {writes : Nat → WriteOutcome} {progress : Bool} {stagingRoot uniqueId : Bytes}
variable {area : StagingArea} {source : Bytes}

theorem checkSource_eq_ok (admitted : checkSource faults contents sourcePath policy = .ok source) :
    contents = some source ∧ source.length ≤ policy.maxArchiveSizeBytes.toNat := by
  cases contents with
  | none => cases admitted
  | some stored =>
    simp only [checkSource] at admitted
    by_cases long : stored.length > policy.maxArchiveSizeBytes.toNat
    · rw [if_pos long] at admitted
      split at admitted <;> cases admitted
    · rw [if_neg long] at admitted
      repeat' split at admitted
      all_goals cases admitted
      exact ⟨rfl, Nat.le_of_not_gt long⟩

def fileAt (area : StagingArea) (directory name : Bytes) : Option Bytes :=
  (area directory).bind (· name)

theorem fileAt_writeFile {directory name : Bytes} {bytes : Bytes} :
    fileAt (writeFile (createDirectory area directory) directory name bytes) directory name =
      some bytes := by
  simp [fileAt, writeFile, createDirectory]

def NothingLeft (area area' : StagingArea) : Prop :=
  ∀ directory, area' directory ≠ none → area directory ≠ none

theorem nothingLeft_removeDirectory {directory : Bytes} :
    NothingLeft area (removeDirectory (createDirectory area directory) directory) := by
  intro other there
  by_cases same : other = directory
  · simp [removeDirectory, same] at there
  · simpa [removeDirectory, createDirectory, same] using there

theorem toHex_ne_nil (data : Bytes) : toHex (hash.result data) ≠ [] := by
  intro empty
  have length := hash.length_result data
  have nonempty : 0 < (hash.result data).length := by omega
  obtain ⟨byte, rest, bytes⟩ := List.exists_cons_of_length_pos nonempty
  rw [bytes, toHex, List.flatMap_cons] at empty
  cases empty

/-- The answer and what is below the staging root match: a package comes with the whole source and
its checksum, an error without a new directory. -/
def AllOrNothing (faults : SetupFaults) (contents : Option Bytes) (sourcePath : Bytes)
    (policy : StagingPolicy) (hash : QCryptographicHash) (reads : Nat → ReadOutcome)
    (writes : Nat → WriteOutcome) (progress : Bool) (stagingRoot uniqueId : Bytes)
    (area : StagingArea) : Prop :=
  ∃ answer area' reports,
    stagePackage faults contents sourcePath policy hash reads writes progress stagingRoot uniqueId
        area = .ok (answer, area', reports) ∧
      (∀ package, answer = .ok package → ∃ source, contents = some source ∧
        fileAt area' uniqueId (NativePath.filename sourcePath) = some source ∧
        package.location.stagingPath = some (destinationPath sourcePath stagingRoot uniqueId) ∧
        source.length ≤ policy.maxArchiveSizeBytes.toNat ∧
        (policy.requireChecksum = true →
          package.location.objectStoreRef = some (toHex (hash.result source)))) ∧
      ∀ error, answer = .error error → NothingLeft area area'

theorem allOrNothing_of_error {error : ImportError} {area' : StagingArea}
    {reports : List (Nat × Nat)}
    (failed : stagePackage faults contents sourcePath policy hash reads writes progress stagingRoot
      uniqueId area = .ok (.error error, area', reports)) (left : NothingLeft area area') :
    AllOrNothing faults contents sourcePath policy hash reads writes progress stagingRoot uniqueId
      area := by
  refine ⟨.error error, area', reports, failed, nofun, ?_⟩
  rintro _ ⟨rfl⟩
  exact left

theorem allOrNothing_copied_iff {state : CopyState}
    (staged : stagePackage faults contents sourcePath policy hash reads writes progress stagingRoot
      uniqueId area = .ok (.ok (stagedPackage sourcePath policy hash stagingRoot uniqueId state),
        writeFile (createDirectory area uniqueId) uniqueId (NativePath.filename sourcePath)
          state.output, state.reports))
    (admitted : checkSource faults contents sourcePath policy = .ok source)
    (copying : Copying reads writes policy.requireChecksum source state) :
    AllOrNothing faults contents sourcePath policy hash reads writes progress stagingRoot uniqueId
        area ↔ state.output = source := by
  obtain ⟨stored, fits⟩ := checkSource_eq_ok admitted
  constructor
  · rintro ⟨answer, area', reports, ran, whole, _⟩
    rw [staged] at ran
    cases ran
    obtain ⟨source', stored', file, _⟩ := whole _ rfl
    rw [fileAt_writeFile, ← stored', stored, Option.some.injEq] at file
    exact file
  · intro output
    refine ⟨_, _, _, staged, ?_, nofun⟩
    rintro _ ⟨rfl⟩
    refine ⟨source, stored, ?_, rfl, fits, fun required => ?_⟩
    · rw [fileAt_writeFile, output]
    · have hashed : state.hashed = source := by rw [copying.hashed, if_pos required, output]
      simp [stagedPackage, required, hashed, toHex_ne_nil]

theorem stagePackage_total :
    (∃ error area' reports,
      stagePackage faults contents sourcePath policy hash reads writes progress stagingRoot uniqueId
          area = .ok (.error error, area', reports) ∧
        NothingLeft area area' ∧
        ∀ source, checkSource faults contents sourcePath policy = .ok source →
          faults.createDirectories = false → faults.openOutput = false →
            ¬ Interrupted reads writes source) ∨
      ∃ source state, checkSource faults contents sourcePath policy = .ok source ∧
        faults.createDirectories = false ∧ faults.openOutput = false ∧
        Copying reads writes policy.requireChecksum source state ∧
        (state.remaining = [] ∨ reads state.round = .fails) ∧
        stagePackage faults contents sourcePath policy hash reads writes progress stagingRoot
          uniqueId area = .ok (.ok (stagedPackage sourcePath policy hash stagingRoot uniqueId state),
            writeFile (createDirectory area uniqueId) uniqueId (NativePath.filename sourcePath)
              state.output, state.reports) := by
  unfold stagePackage
  cases admitted : checkSource faults contents sourcePath policy with
  | error error => exact .inl ⟨error, area, [], rfl, fun _ there => there, nofun⟩
  | ok source =>
    cases directories : faults.createDirectories with
    | true => exact .inl ⟨.stagingFailed, area, [], rfl, fun _ there => there, nofun⟩
    | false =>
      cases opened : faults.openOutput with
      | true => exact .inl ⟨.stagingFailed, _, [], rfl, nothingLeft_removeDirectory, nofun⟩
      | false =>
        obtain ⟨ending, ran, ends⟩ : ∃ ending,
            copy reads writes policy.requireChecksum progress source = .ok ending ∧
              EndsCopying reads writes policy.requireChecksum source ending := copy_total
        cases ending with
        | copied state =>
          refine .inr ⟨source, state, rfl, rfl, rfl, ends.1, ends.2, ?_⟩
          simp only [ran, Bool.false_eq_true, if_false, Checked.ok_bind]
          rfl
        | shortWrite state =>
          obtain ⟨round, smooth, delivered, short⟩ := ends
          refine .inl ⟨.stagingFailed, removeDirectory (createDirectory area uniqueId) uniqueId,
            state.reports, ?_, nothingLeft_removeDirectory, ?_⟩
          · simp only [ran, Bool.false_eq_true, if_false, Checked.ok_bind]
            rfl
          · rintro _ ⟨rfl⟩ _ _
            exact not_interrupted_of_short smooth delivered short

/-- Staging is all or nothing unless a source that was let in and whose directory and file could
be made is cut short by a failing read. -/
theorem allOrNothing_iff (faults : SetupFaults) (contents : Option Bytes) (sourcePath : Bytes)
    (policy : StagingPolicy) (hash : QCryptographicHash) (reads : Nat → ReadOutcome)
    (writes : Nat → WriteOutcome) (progress : Bool) (stagingRoot uniqueId : Bytes)
    (area : StagingArea) :
    AllOrNothing faults contents sourcePath policy hash reads writes progress stagingRoot uniqueId
        area ↔
      ∀ source, checkSource faults contents sourcePath policy = .ok source →
        faults.createDirectories = false → faults.openOutput = false →
          ¬ Interrupted reads writes source := by
  rcases stagePackage_total with
    ⟨error, area', reports, failed, left, uninterrupted⟩ |
      ⟨source, state, admitted, directories, opened, copying, last, staged⟩
  · exact iff_of_true (allOrNothing_of_error failed left) uninterrupted
  · rw [allOrNothing_copied_iff staged admitted copying, copying.output_eq_iff last, admitted]
    constructor
    · rintro uninterrupted _ ⟨rfl⟩ _ _
      exact uninterrupted
    · intro uninterrupted
      exact uninterrupted source rfl directories opened

def emptyHash : QCryptographicHash where
  result _ :=
    [0xE3, 0xB0, 0xC4, 0x42, 0x98, 0xFC, 0x1C, 0x14, 0x9A, 0xFB, 0xF4, 0xC8, 0x99, 0x6F, 0xB9, 0x24,
      0x27, 0xAE, 0x41, 0xE4, 0x64, 0x9B, 0x93, 0x4C, 0xA4, 0x95, 0x99, 0x1B, 0x78, 0x52, 0xB8, 0x55]
  length_result _ := rfl

theorem not_allOrNothing_of_failing_read :
    ¬ AllOrNothing noSetupFaults (some [0x50, 0x4B]) [0x6D, 0x2E, 0x7A, 0x69, 0x70] {} emptyHash
      (fun _ => .fails) (fun _ => .complete) false [0x73] [0x75] (fun _ => none) := by
  rintro ⟨answer, area', reports, ran, whole, _⟩
  have staged : stagePackage noSetupFaults (some [0x50, 0x4B]) [0x6D, 0x2E, 0x7A, 0x69, 0x70] {}
      emptyHash (fun _ => .fails) (fun _ => .complete) false [0x73] [0x75] (fun _ => none) =
        .ok (.ok (stagedPackage [0x6D, 0x2E, 0x7A, 0x69, 0x70] {} emptyHash [0x73] [0x75]
          ⟨0, [0x50, 0x4B], [], [], 0, []⟩),
          writeFile (createDirectory (fun _ => none) [0x75]) [0x75] [0x6D, 0x2E, 0x7A, 0x69, 0x70] [],
          []) := rfl
  rw [staged] at ran
  cases ran
  obtain ⟨source, stored, file, _⟩ := whole _ rfl
  cases stored
  exact absurd file (by decide)

end Stage

end FastModManager.Infrastructure.StagingRepository
