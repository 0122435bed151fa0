import FastModManager.Foundation.Machine
import FastModManager.Infrastructure.StagingRepositoryLaws

namespace FastModManager.Infrastructure.StagingRepository

open Foundation Domain

section Copy

variable {reads : Nat → ReadOutcome} {writes : Nat → WriteOutcome}
variable {requireChecksum progress : Bool} {source : Bytes} {state next : CopyState}

def reported (reads : Nat → ReadOutcome) (source : Bytes) (rounds : Nat) : List (Nat × Nat) :=
  (List.range rounds).map fun round => (min (position reads (round + 1)) source.length, source.length)

theorem reported_succ (rounds : Nat) : reported reads source (rounds + 1) =
    reported reads source rounds ++
      [(min (position reads (rounds + 1)) source.length, source.length)] := by
  rw [reported, List.range_succ, List.map_append]
  rfl

structure Counting (reads : Nat → ReadOutcome) (progress : Bool) (source : Bytes)
    (state : CopyState) : Prop where
  totalRead : state.totalRead = min (position reads state.round) source.length
  reports : state.reports = if progress then reported reads source state.round else []
  unread : ∀ round < state.round, position reads round < source.length

theorem Counting.initial : Counting reads progress source ⟨0, source, [], [], 0, []⟩ where
  totalRead := (Nat.zero_min _).symm
  reports := by cases progress <;> rfl
  unread := nofun

theorem of_copyStep_inl {fileSize : Nat}
    (stepped : copyStep reads writes requireChecksum progress fileSize state = .ok (.inl next)) :
    state.remaining ≠ [] ∧ next.round = state.round + 1 ∧
      next.totalRead = state.totalRead + (read (reads state.round) state.remaining).length ∧
      next.reports = if progress then state.reports ++ [(next.totalRead, fileSize)]
        else state.reports := by
  simp only [copyStep] at stepped
  split at stepped
  · cases stepped
  · rename_i unread
    split at stepped
    · cases stepped
    · split at stepped
      · cases stepped
      · cases stepped
        exact ⟨unread, rfl, rfl, rfl⟩

theorem of_copyStep_shortWrite {fileSize : Nat}
    (stepped : copyStep reads writes requireChecksum progress fileSize state =
      .ok (.inr (.shortWrite next))) : next.reports = state.reports := by
  simp only [copyStep] at stepped
  split at stepped
  · cases stepped
  · split at stepped
    · cases stepped
    · split at stepped
      · cases stepped
        rfl
      · cases stepped

theorem of_copyStep_copied {fileSize : Nat}
    (stepped : copyStep reads writes requireChecksum progress fileSize state =
      .ok (.inr (.copied next))) : next = state := by
  simp only [copyStep] at stepped
  split at stepped
  · cases stepped
    rfl
  · split at stepped
    · cases stepped
      rfl
    · split at stepped <;> cases stepped

theorem Counting.of_step (counting : Counting reads progress source state)
    (copying : Copying reads writes requireChecksum source state)
    (stepped : copyStep reads writes requireChecksum progress source.length state =
      .ok (.inl next)) : Counting reads progress source next := by
  obtain ⟨unread, round, total, reports⟩ := of_copyStep_inl stepped
  have before : position reads state.round < source.length := by
    rw [ne_eq, copying.remaining_eq_nil_iff] at unread
    omega
  have totalRead : next.totalRead = min (position reads next.round) source.length := by
    rw [total, counting.totalRead, round, position_succ, read_eq_take, List.length_take,
      copying.remaining, List.length_drop]
    omega
  refine ⟨totalRead, ?_, ?_⟩
  · rw [reports, counting.reports, round, reported_succ, totalRead, round]
    cases progress <;> rfl
  · intro earlier bound
    rw [round] at bound
    rcases Nat.lt_succ_iff_lt_or_eq.mp bound with less | rfl
    · exact counting.unread earlier less
    · exact before

structure Rising (total : Nat) (reports : List (Nat × Nat)) : Prop where
  rises : reports.Pairwise fun earlier later => earlier.1 < later.1
  within : ∀ report ∈ reports, 0 < report.1 ∧ report.1 ≤ total ∧ report.2 = total

theorem rising_nil (total : Nat) : Rising total [] := ⟨.nil, nofun⟩

theorem Counting.rising (counting : Counting reads progress source state)
    (smooth : ∀ round < state.round, reads round ≠ .fails) :
    Rising source.length state.reports := by
  have further {round : Nat} (earlier : round < state.round) :
      position reads round < position reads (round + 1) := by
    rw [position_succ]
    have positive := chunk_pos (smooth round earlier)
    omega
  rw [counting.reports]
  cases progress with
  | false => exact rising_nil _
  | true =>
    refine ⟨?_, ?_⟩
    · rw [if_pos rfl, reported, List.pairwise_map]
      refine List.pairwise_lt_range.imp_of_mem ?_
      intro earlier later _ last less
      have unread := counting.unread later (List.mem_range.mp last)
      have reached : position reads (earlier + 1) ≤ position reads later := position_le less
      have rises := further (List.mem_range.mp last)
      dsimp only
      omega
    · rw [if_pos rfl]
      intro report member
      obtain ⟨round, bound, rfl⟩ := List.mem_map.mp member
      have unread := counting.unread round (List.mem_range.mp bound)
      have rises := further (List.mem_range.mp bound)
      refine ⟨?_, Nat.min_le_right _ _, rfl⟩
      dsimp only
      omega

def EndsCounting (reads : Nat → ReadOutcome) (writes : Nat → WriteOutcome)
    (requireChecksum progress : Bool) (source : Bytes) : CopyEnd → Prop
  | .copied state => Copying reads writes requireChecksum source state ∧
      Counting reads progress source state
  | .shortWrite state => Rising source.length state.reports

theorem copy_counts : ∃ ending, copy reads writes requireChecksum progress source = .ok ending ∧
    EndsCounting reads writes requireChecksum progress source ending := by
  refine iterate_total (fun state => Copying reads writes requireChecksum source state ∧
    Counting reads progress source state) (fun state => state.remaining.length) ?_
    ⟨Copying.initial, Counting.initial⟩ (Nat.lt_succ_self _)
  rintro state ⟨copying, counting⟩
  by_cases last : state.remaining = [] ∨ reads state.round = .fails ∨ writes state.round ≠ .complete
  · obtain ⟨ending, stepped, _⟩ := copying.last last
    refine .inr ⟨ending, stepped, ?_⟩
    cases ending with
    | copied state' =>
      obtain rfl := of_copyStep_copied stepped
      exact ⟨copying, counting⟩
    | shortWrite state' =>
      have reports := of_copyStep_shortWrite stepped
      change Rising source.length state'.reports
      rw [reports]
      exact counting.rising fun round earlier => (copying.smooth round earlier).1
  · simp only [not_or, not_not] at last
    obtain ⟨unread, delivered, complete⟩ := last
    obtain ⟨next, stepped, copying', shorter⟩ := copying.next unread delivered complete
    exact .inl ⟨next, stepped, ⟨copying', counting.of_step copying stepped⟩, shorter⟩

theorem Counting.last_report (counting : Counting reads true source state) (bytes : Bytes)
    (copied : bytes = source.take (position reads state.round)) :
    (state.reports.getLast?.map Prod.fst).getD 0 = bytes.length := by
  rw [counting.reports, if_pos rfl, copied, List.length_take]
  cases state.round with
  | zero => simp [reported, position]
  | succ round => simp [reported_succ]

end Copy

section Stage

variable {faults : SetupFaults} {contents : Option Bytes} {sourcePath : Bytes}
variable {policy : StagingPolicy} {hash : QCryptographicHash} {reads : Nat → ReadOutcome}
variable {writes : Nat → WriteOutcome} {progress : Bool} {stagingRoot uniqueId : Bytes}
variable {area area' : StagingArea} {reports : List (Nat × Nat)}

/-- The package and its record are of the same file, which is what was copied of the source. -/
structure Records (contents : Option Bytes) (sourcePath : Bytes) (policy : StagingPolicy)
    (hash : QCryptographicHash) (progress : Bool) (stagingRoot uniqueId : Bytes)
    (area : StagingArea) (reports : List (Nat × Nat)) (package : InstalledPackage) (bytes : Bytes) :
    Prop where
  copied : ∃ source, contents = some source ∧ bytes <+: source
  id : package.id = ⟨uniqueId⟩
  file : fileAt area uniqueId (NativePath.filename sourcePath) = some bytes
  stagingPath : package.location.stagingPath = some (destinationPath sourcePath stagingRoot uniqueId)
  objectStoreRef : package.location.objectStoreRef =
    if policy.requireChecksum then some (toHex (hash.result bytes)) else none
  reports : progress = true → (reports.getLast?.map Prod.fst).getD 0 = bytes.length

theorem writeFile_other {directory other name bytes : Bytes} (differs : other ≠ directory) :
    writeFile (createDirectory area directory) directory name bytes other = area other := by
  simp [writeFile, createDirectory, differs]

theorem removeDirectory_other {directory other : Bytes} (differs : other ≠ directory) :
    removeDirectory (createDirectory area directory) directory other = area other := by
  simp [removeDirectory, createDirectory, differs]

theorem records_of_copied {source : Bytes} {state : CopyState} (stored : contents = some source)
    (copying : Copying reads writes policy.requireChecksum source state)
    (counting : Counting reads progress source state) :
    Records contents sourcePath policy hash progress stagingRoot uniqueId
      (writeFile (createDirectory area uniqueId) uniqueId (NativePath.filename sourcePath)
        state.output) state.reports
      (stagedPackage sourcePath policy hash stagingRoot uniqueId state) state.output where
  copied := ⟨source, stored, copying.output ▸ List.take_prefix _ _⟩
  id := rfl
  file := fileAt_writeFile
  stagingPath := rfl
  objectStoreRef := by
    have hashed := copying.hashed
    cases required : policy.requireChecksum with
    | true =>
      rw [required, if_pos rfl] at hashed
      simp [stagedPackage, required, hashed, toHex_ne_nil]
    | false => simp [stagedPackage, required]
  reports := by
    rintro rfl
    exact counting.last_report state.output copying.output

/-- However reading and writing go: other directories are left alone, the reports rise, and a
package comes with a file from the start of the source whose checksum and length are recorded. -/
theorem stagePackage_records (faults : SetupFaults) (contents : Option Bytes) (sourcePath : Bytes)
    (policy : StagingPolicy) (hash : QCryptographicHash) (reads : Nat → ReadOutcome)
    (writes : Nat → WriteOutcome) (progress : Bool) (stagingRoot uniqueId : Bytes)
    (area : StagingArea) :
    ∃ answer area' reports,
      stagePackage faults contents sourcePath policy hash reads writes progress stagingRoot uniqueId
          area = .ok (answer, area', reports) ∧
        (∀ directory ≠ uniqueId, area' directory = area directory) ∧
        (∀ source, contents = some source → Rising source.length reports) ∧
        ∀ package, answer = .ok package → ∃ bytes,
          Records contents sourcePath policy hash progress stagingRoot uniqueId area' reports package
            bytes := by
  unfold stagePackage
  cases admitted : checkSource faults contents sourcePath policy with
  | error error =>
    exact ⟨.error error, area, [], rfl, fun _ _ => rfl, fun _ _ => rising_nil _, nofun⟩
  | ok source =>
    obtain ⟨stored, _⟩ := checkSource_eq_ok admitted
    cases faults.createDirectories with
    | true =>
      exact ⟨.error .stagingFailed, area, [], rfl, fun _ _ => rfl, fun _ _ => rising_nil _, nofun⟩
    | false =>
      cases faults.openOutput with
      | true =>
        exact ⟨.error .stagingFailed, _, [], rfl, fun _ => removeDirectory_other,
          fun _ _ => rising_nil _, nofun⟩
      | false =>
        obtain ⟨ending, ran, ends⟩ : ∃ ending,
            copy reads writes policy.requireChecksum progress source = .ok ending ∧
              EndsCounting reads writes policy.requireChecksum progress source ending := copy_counts
        simp only [ran, Bool.false_eq_true, if_false, Checked.ok_bind]
        cases ending with
        | copied state =>
          obtain ⟨copying, counting⟩ := ends
          refine ⟨_, _, _, rfl, fun _ => writeFile_other, ?_, ?_⟩
          · intro _ same
            cases stored.symm.trans same
            exact counting.rising fun round earlier => (copying.smooth round earlier).1
          · rintro _ ⟨rfl⟩
            exact ⟨state.output, records_of_copied stored copying counting⟩
        | shortWrite state =>
          refine ⟨.error .stagingFailed, _, _, rfl, fun _ => removeDirectory_other, ?_, nofun⟩
          intro _ same
          cases stored.symm.trans same
          exact ends

end Stage

section Runs

structure Request where
  faults : SetupFaults
  contents : Option Bytes
  sourcePath : Bytes
  policy : StagingPolicy
  reads : Nat → ReadOutcome
  writes : Nat → WriteOutcome
  progress : Bool
  uniqueId : Bytes

abbrev Answer := Checked (Except ImportError InstalledPackage)

variable (hash : QCryptographicHash) (stagingRoot : Bytes)

def stageNext (area : StagingArea) (request : Request) : Answer × StagingArea :=
  match stagePackage request.faults request.contents request.sourcePath request.policy hash
    request.reads request.writes request.progress stagingRoot request.uniqueId area with
  | .ok (answer, area', _) => (.ok answer, area')
  | .error fault => (.error fault, area)

/-- The file of a package is where its record says, and has the checksum that is recorded. -/
def Intact (area : StagingArea) (package : InstalledPackage) : Prop :=
  ∃ name bytes,
    package.location.stagingPath =
      some (NativePath.append (NativePath.append stagingRoot package.id.value) name) ∧
    fileAt area package.id.value name = some bytes ∧
    ∀ checksum, package.location.objectStoreRef = some checksum →
      checksum = toHex (hash.result bytes)

variable {hash stagingRoot} {area : StagingArea} {request : Request} {package : InstalledPackage}

theorem stageNext_spec (hash : QCryptographicHash) (stagingRoot : Bytes) (area : StagingArea)
    (request : Request) :
    (∃ answer, (stageNext hash stagingRoot area request).1 = .ok answer) ∧
      (∀ directory ≠ request.uniqueId,
        (stageNext hash stagingRoot area request).2 directory = area directory) ∧
      (∀ package, (stageNext hash stagingRoot area request).1 = .ok (.ok package) →
        package.id = ⟨request.uniqueId⟩ ∧
          Intact hash stagingRoot (stageNext hash stagingRoot area request).2 package) ∧
      ∀ error, (stageNext hash stagingRoot area request).1 = .ok (.error error) →
        NothingLeft area (stageNext hash stagingRoot area request).2 := by
  obtain ⟨answer, area', reports, staged, frame, _, records⟩ := stagePackage_records request.faults
    request.contents request.sourcePath request.policy hash request.reads request.writes
    request.progress stagingRoot request.uniqueId area
  simp only [stageNext, staged]
  refine ⟨⟨answer, rfl⟩, frame, ?_, ?_⟩
  · rintro package ⟨rfl⟩
    obtain ⟨bytes, record⟩ := records package rfl
    refine ⟨record.id, NativePath.filename request.sourcePath, bytes, ?_, ?_, ?_⟩
    · rw [record.stagingPath, record.id]
      rfl
    · rw [record.id]
      exact record.file
    · intro checksum recorded
      rw [record.objectStoreRef, Option.ite_none_right_eq_some] at recorded
      exact (Option.some.inj recorded.2).symm
  · rintro error ⟨rfl⟩
    rcases stagePackage_total with ⟨_, _, _, failed, left, _⟩ | ⟨_, _, _, _, _, _, _, succeeded⟩
    · cases staged.symm.trans failed
      exact left
    · cases staged.symm.trans succeeded

theorem Intact.stageNext (intact : Intact hash stagingRoot area package)
    (differs : request.uniqueId ≠ package.id.value) :
    Intact hash stagingRoot (stageNext hash stagingRoot area request).2 package := by
  obtain ⟨name, bytes, path, file, checksum⟩ := intact
  obtain ⟨_, frame, _⟩ := stageNext_spec hash stagingRoot area request
  refine ⟨name, bytes, path, ?_, checksum⟩
  rwa [fileAt, frame _ differs.symm]

theorem stageNext_directory (directory : Bytes)
    (there : (stageNext hash stagingRoot area request).2 directory ≠ none) :
    area directory ≠ none ∨ ∃ package, (stageNext hash stagingRoot area request).1 =
      .ok (.ok package) ∧ package.id.value = directory := by
  obtain ⟨⟨answer, answered⟩, frame, packages, errors⟩ :=
    stageNext_spec hash stagingRoot area request
  by_cases own : directory = request.uniqueId
  · cases answer with
    | error error => exact .inl (errors error answered directory there)
    | ok package =>
      refine .inr ⟨package, answered, ?_⟩
      rw [(packages package answered).1, own]
  · rw [frame directory own] at there
    exact .inl there

open Machine (run)

theorem run_directory {requests : List Request} (directory : Bytes) :
    ∀ {area : StagingArea}, (run (stageNext hash stagingRoot) area requests).2 directory ≠ none →
      area directory ≠ none ∨ ∃ package,
        .ok (.ok package) ∈ (run (stageNext hash stagingRoot) area requests).1 ∧
          package.id.value = directory := by
  induction requests with
  | nil => intro area there; exact .inl there
  | cons request requests ih =>
    intro area there
    rcases ih there with before | ⟨package, member, same⟩
    · rcases stageNext_directory directory before with older | ⟨package, answered, same⟩
      · exact .inl older
      · exact .inr ⟨package, answered ▸ List.mem_cons_self, same⟩
    · exact .inr ⟨package, List.mem_cons_of_mem _ member, same⟩

/-- Over every sequence of calls: every call answers, a package stays intact as long as no later
call draws its identifier, and the only new directories are those of packages. -/
theorem staged_packages_stay (hash : QCryptographicHash) (stagingRoot : Bytes)
    (requests : List Request) (area : StagingArea) :
    (∀ answer ∈ (run (stageNext hash stagingRoot) area requests).1, ∃ result, answer = .ok result) ∧
    (∀ (index : Nat) (package : InstalledPackage),
      (run (stageNext hash stagingRoot) area requests).1[index]? = some (.ok (.ok package)) →
      (∀ (later : Nat) (request : Request), index < later → requests[later]? = some request →
        request.uniqueId ≠ package.id.value) →
      Intact hash stagingRoot (run (stageNext hash stagingRoot) area requests).2 package) ∧
    ∀ directory, (run (stageNext hash stagingRoot) area requests).2 directory ≠ none →
      area directory ≠ none ∨ ∃ package,
        .ok (.ok package) ∈ (run (stageNext hash stagingRoot) area requests).1 ∧
          package.id.value = directory := by
  refine ⟨?_, ?_, fun directory => run_directory directory⟩
  · induction requests generalizing area with
    | nil => nofun
    | cons request requests ih =>
      intro answer member
      rcases List.mem_cons.mp member with rfl | later
      · exact (stageNext_spec hash stagingRoot area request).1
      · exact ih _ answer later
  · intro index package answered undrawn
    refine Machine.run_of_established
      (fun (answer : Answer) area => ∀ package, answer = .ok (.ok package) →
        Intact hash stagingRoot area package)
      (fun (request : Request) answer => ∃ package, answer = .ok (.ok package) ∧
        request.uniqueId = package.id.value) ?_ ?_ answered ?_ package rfl
    · intro area request package answered
      exact ((stageNext_spec hash stagingRoot area request).2.2.1 package answered).2
    · intro area request answer intact unspoilt package same
      exact (intact package same).stageNext fun drawn => unspoilt ⟨package, same, drawn⟩
    · rintro later request bound found ⟨_, ⟨⟩, drawn⟩
      exact undrawn later request bound found drawn

end Runs

end FastModManager.Infrastructure.StagingRepository
