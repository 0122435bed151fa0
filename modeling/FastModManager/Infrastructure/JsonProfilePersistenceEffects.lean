import FastModManager.Foundation.Machine
import FastModManager.Infrastructure.JsonProfilePersistenceLaws

namespace FastModManager.Infrastructure.JsonProfilePersistence

open Foundation Domain Application

section Saves

variable {qt : QtText} {files : QtFiles qt} {readFaults : ReadFaults files}
variable {writeFaults : WriteFaults} {store store' : FileStore files} {storageDirectory : Bytes}
variable {identity identity' : ProfileIdentity}

def savedPath (storageDirectory : Bytes) : ProfileSave → Bytes
  | .metadata saved => metadataPath storageDirectory saved.identity
  | .state profile _ => statePath storageDirectory profile

def savedObject : ProfileSave → QJsonObject qt.QString
  | .metadata saved => metadataToJson qt saved
  | .state _ saved => stateToJson saved

theorem save_eq_writeObject (call : ProfileSave) :
    save files writeFaults store storageDirectory call =
      writeObject files writeFaults store (savedPath storageDirectory call) (savedObject call) := by
  cases call with
  | metadata saved => rfl
  | state profile saved => rfl

theorem loadMetadata_congr
    (same : store (qt.fileName (metadataPath storageDirectory identity)) =
      store' (qt.fileName (metadataPath storageDirectory identity))) :
    loadMetadata files readFaults store storageDirectory identity =
      loadMetadata files readFaults store' storageDirectory identity := by
  rw [loadMetadata, loadMetadata, readObject_congr same]

theorem loadState_congr
    (same : store (qt.fileName (statePath storageDirectory identity)) =
      store' (qt.fileName (statePath storageDirectory identity'))) :
    loadState files readFaults store storageDirectory identity =
      loadState files readFaults store' storageDirectory identity' := by
  rw [loadState, loadState, readObject_congr same]

end Saves

section Isolation

variable {qt : QtText} (files : QtFiles qt) (storageDirectory : Bytes)

def saves (store : FileStore files) (calls : List ProfileSave) : FileStore files :=
  (Machine.run (fun store call => save files noWriteFaults store storageDirectory call)
    store calls).2

/-- Whatever is stored, no calls that save the writer's profile change what the reader loads. -/
def Undisturbed (writer reader : ProfileIdentity) : Prop :=
  ∀ (store : FileStore files) (calls : List ProfileSave),
    (∀ call ∈ calls, call.identity = writer) →
      loadMetadata files (noReadFaults files) (saves files storageDirectory store calls)
          storageDirectory reader =
        loadMetadata files (noReadFaults files) store storageDirectory reader ∧
      loadState files (noReadFaults files) (saves files storageDirectory store calls)
          storageDirectory reader =
        loadState files (noReadFaults files) store storageDirectory reader

variable {writer reader : ProfileIdentity}

include files in
theorem fileName_savedPath_ne {call : ProfileSave}
    (apart : qt.fileName (profileDirectory storageDirectory call.identity) ≠
      qt.fileName (profileDirectory storageDirectory reader)) :
    qt.fileName (metadataPath storageDirectory reader) ≠
        qt.fileName (savedPath storageDirectory call) ∧
      qt.fileName (statePath storageDirectory reader) ≠
        qt.fileName (savedPath storageDirectory call) := by
  cases call with
  | metadata saved =>
    refine ⟨fun same => apart ?_,
      (fileName_metadataPath_ne_statePath files storageDirectory _ _).symm⟩
    exact ((fileName_metadataPath_inj files storageDirectory).mp same).symm
  | state profile saved =>
    refine ⟨fileName_metadataPath_ne_statePath files storageDirectory _ _, fun same => apart ?_⟩
    exact ((fileName_statePath_inj files storageDirectory).mp same).symm

theorem undisturbed_of_apart
    (apart : qt.fileName (profileDirectory storageDirectory writer) ≠
      qt.fileName (profileDirectory storageDirectory reader)) :
    Undisturbed files storageDirectory writer reader := by
  intro store calls own
  have kept : saves files storageDirectory store calls
        (qt.fileName (metadataPath storageDirectory reader)) =
        store (qt.fileName (metadataPath storageDirectory reader)) ∧
      saves files storageDirectory store calls
        (qt.fileName (statePath storageDirectory reader)) =
        store (qt.fileName (statePath storageDirectory reader)) := by
    refine Machine.run_of_invariant (fun store' : FileStore files =>
      store' (qt.fileName (metadataPath storageDirectory reader)) =
          store (qt.fileName (metadataPath storageDirectory reader)) ∧
        store' (qt.fileName (statePath storageDirectory reader)) =
          store (qt.fileName (statePath storageDirectory reader))) ?_ ⟨rfl, rfl⟩
    intro store' call member ⟨metadataKept, stateKept⟩
    rw [← own call member] at apart
    obtain ⟨metadataOther, stateOther⟩ := fileName_savedPath_ne files storageDirectory apart
    rw [save_eq_writeObject, writeObject_of_ne metadataOther, writeObject_of_ne stateOther]
    exact ⟨metadataKept, stateKept⟩
  exact ⟨loadMetadata_congr kept.1, loadState_congr kept.2⟩

theorem undisturbed_iff (writer reader : ProfileIdentity) :
    Undisturbed files storageDirectory writer reader ↔
      qt.fileName (profileDirectory storageDirectory writer) ≠
        qt.fileName (profileDirectory storageDirectory reader) := by
  constructor
  · intro undisturbed same
    -- the first state that is saved
    have own : ∀ call ∈ [ProfileSave.state writer ⟨none, [], []⟩], call.identity = writer := by
      simp [ProfileSave.identity]
    obtain ⟨_, kept⟩ := undisturbed (fun _ => none) _ own
    have shared := (fileName_statePath_inj files storageDirectory).mpr same
    have saved : saveState files noWriteFaults (fun _ => none) storageDirectory writer
          ⟨none, [], []⟩ =
        (.ok (), saves files storageDirectory (fun _ => none) [.state writer ⟨none, [], []⟩]) :=
      rfl
    rw [loadState_congr (congrArg _ shared.symm), loadState_saveState saved] at kept
    cases kept
  · exact undisturbed_of_apart files storageDirectory

theorem not_undisturbed_of_sub_profiles :
    ∃ writer reader, ProfileIdentity.create [77] (some [65]) = .ok writer ∧
      ProfileIdentity.create [77] (some [66]) = .ok reader ∧ writer ≠ reader ∧
      ¬ Undisturbed plainFiles [] writer reader := by
  refine ⟨⟨[77], some [65], by decide⟩, ⟨[77], some [66], by decide⟩, rfl, rfl, by decide, ?_⟩
  intro undisturbed
  have kept := undisturbed (fun _ => none) [.state ⟨[77], some [65], by decide⟩ ⟨none, [], []⟩]
    (by decide)
  revert kept
  decide

theorem undisturbed_iff_name_ne
    (writerKept : qt.RoundTrips (profileDirectory storageDirectory writer))
    (readerKept : qt.RoundTrips (profileDirectory storageDirectory reader)) :
    Undisturbed files storageDirectory writer reader ↔ writer.name ≠ reader.name := by
  have names : qt.fileName (profileDirectory storageDirectory writer) =
      qt.fileName (profileDirectory storageDirectory reader) ↔ writer.name = reader.name := by
    rw [QtText.fileName, QtText.fileName, writerKept, readerKept]
    exact profileDirectory_inj storageDirectory writer
  rw [undisturbed_iff, ne_eq, ne_eq, names]

end Isolation

section Failures

variable {qt : QtText} (files : QtFiles qt) {storageDirectory : Bytes}
variable {store store' : FileStore files} {identity identity' : ProfileIdentity}

def Damaged (contents : files.QByteArray) : ProfileSave → Prop
  | .metadata saved => ∀ object, files.fromJson contents = some (.object object) →
      jsonToMetadata saved.identity object = .error .invalidFormat
  | .state _ _ => ∀ object, files.fromJson contents ≠ some (.object object)

def LoadsKept (storageDirectory : Bytes) (store store' : FileStore files) : Prop :=
  ∀ identity,
    loadMetadata files (noReadFaults files) store' storageDirectory identity =
        loadMetadata files (noReadFaults files) store storageDirectory identity ∧
      loadState files (noReadFaults files) store' storageDirectory identity =
        loadState files (noReadFaults files) store storageDirectory identity

theorem jsonToMetadata_error_iff {object : QJsonObject qt.QString}
    {error : ProfilePersistenceError} :
    jsonToMetadata identity object = .error error ↔
      jsonToMetadata identity' object = .error error := by
  simp only [jsonToMetadata]
  repeat' split
  all_goals simp

theorem readObject_cases (store : FileStore files) (path : Bytes) :
    store (qt.fileName path) = none ∧
        readObject files (noReadFaults files) store path = .error .fileNotFound ∨
      ∃ contents, store (qt.fileName path) = some contents ∧
        ((∃ object, files.fromJson contents = some (.object object) ∧
            readObject files (noReadFaults files) store path = .ok object) ∨
          (∀ object, files.fromJson contents ≠ some (.object object)) ∧
            readObject files (noReadFaults files) store path = .error .invalidFormat) := by
  cases stored : store (qt.fileName path) with
  | none => exact .inl ⟨rfl, by simp only [readObject, stored]⟩
  | some contents =>
    refine .inr ⟨contents, rfl, ?_⟩
    by_cases parsed : ∃ object, files.fromJson contents = some (.object object)
    · obtain ⟨object, parsed⟩ := parsed
      exact .inl ⟨object, parsed, by simp [readObject, stored, noReadFaults, parsed]⟩
    · have unparsed := not_exists.mp parsed
      refine .inr ⟨unparsed, ?_⟩
      -- the catch-all branch of the match is taken because of `unparsed`
      simp only [readObject, stored, noReadFaults, Option.getD_none, Bool.false_eq_true, if_false]

theorem loadMetadata_eq_invalidFormat_iff {saved : ProfileMetadata} :
    loadMetadata files (noReadFaults files) store storageDirectory saved.identity =
        .error .invalidFormat ↔
      ∃ contents, store (qt.fileName (metadataPath storageDirectory saved.identity)) =
        some contents ∧ Damaged files contents (.metadata saved) := by
  rcases readObject_cases files store (metadataPath storageDirectory saved.identity) with
    ⟨missing, ran⟩ | ⟨contents, stored, ⟨object, parsed, ran⟩ | ⟨unparsed, ran⟩⟩
  · simp [loadMetadata, ran, missing]
  · simp [loadMetadata, ran, stored, Damaged, parsed]
  · simp [loadMetadata, ran, stored, Damaged, unparsed]

theorem loadState_eq_invalidFormat_iff {profile : ProfileIdentity} {saved : ProfileState} :
    loadState files (noReadFaults files) store storageDirectory profile = .error .invalidFormat ↔
      ∃ contents, store (qt.fileName (statePath storageDirectory profile)) = some contents ∧
        Damaged files contents (.state profile saved) := by
  rcases readObject_cases files store (statePath storageDirectory profile) with
    ⟨missing, ran⟩ | ⟨contents, stored, ⟨object, parsed, ran⟩ | ⟨unparsed, ran⟩⟩
  · simp [loadState, ran, missing]
  · simp [loadState, ran, stored, Damaged, parsed]
  · simp [loadState, ran, stored, Damaged, unparsed]

def truncated (storageDirectory : Bytes) (store : FileStore files) (call : ProfileSave) :
    FileStore files :=
  Function.update store (qt.fileName (savedPath storageDirectory call)) (some files.empty)

theorem loadMetadata_error_iff {error : ProfilePersistenceError}
    (same : qt.fileName (metadataPath storageDirectory identity) =
      qt.fileName (metadataPath storageDirectory identity')) :
    loadMetadata files (noReadFaults files) store storageDirectory identity = .error error ↔
      loadMetadata files (noReadFaults files) store storageDirectory identity' = .error error := by
  rw [loadMetadata, loadMetadata, readObject_congr (congrArg store same)]
  cases readObject files (noReadFaults files) store (metadataPath storageDirectory identity') with
  | error error => rfl
  | ok object => exact jsonToMetadata_error_iff

theorem loadsKept_truncated_iff {call : ProfileSave} :
    LoadsKept files storageDirectory store (truncated files storageDirectory store call) ↔
      ∃ contents, store (qt.fileName (savedPath storageDirectory call)) = some contents ∧
        Damaged files contents call := by
  cases call with
  | metadata saved =>
    have broken : loadMetadata files (noReadFaults files)
        (truncated files storageDirectory store (.metadata saved)) storageDirectory
          saved.identity = .error .invalidFormat := by
      rw [loadMetadata, truncated, savedPath, readObject_empty]
    rw [savedPath, ← loadMetadata_eq_invalidFormat_iff]
    constructor
    · intro kept
      rw [← (kept saved.identity).1, broken]
    · intro damaged identity
      constructor
      · by_cases same : qt.fileName (metadataPath storageDirectory identity) =
          qt.fileName (metadataPath storageDirectory saved.identity)
        · rw [(loadMetadata_error_iff files same).mpr damaged,
            (loadMetadata_error_iff files same).mpr broken]
        · exact loadMetadata_congr (Function.update_of_ne same _ _)
      · apply loadState_congr
        exact Function.update_of_ne
          (fileName_metadataPath_ne_statePath files storageDirectory _ _).symm _ _
  | state profile saved =>
    have broken : loadState files (noReadFaults files)
        (truncated files storageDirectory store (.state profile saved)) storageDirectory
          profile = .error .invalidFormat := by
      rw [loadState, truncated, savedPath, readObject_empty]
    rw [savedPath, ← loadState_eq_invalidFormat_iff]
    constructor
    · intro kept
      rw [← (kept profile).2, broken]
    · intro damaged identity
      constructor
      · apply loadMetadata_congr
        exact Function.update_of_ne
          (fileName_metadataPath_ne_statePath files storageDirectory _ _) _ _
      · by_cases same : qt.fileName (statePath storageDirectory identity) =
          qt.fileName (statePath storageDirectory profile)
        · rw [loadState_congr (congrArg _ same), loadState_congr (congrArg store same), damaged,
            broken]
        · exact loadState_congr (Function.update_of_ne same _ _)

/-- A failing call leaves what is loaded, unless it has truncated a file that was not damaged
already. -/
theorem loadsKept_of_failed_iff (files : QtFiles qt) (storageDirectory : Bytes)
    (writeFaults : WriteFaults) (store : FileStore files) (call : ProfileSave) :
    (∀ error, (save files writeFaults store storageDirectory call).1 = .error error →
        LoadsKept files storageDirectory store
          (save files writeFaults store storageDirectory call).2) ↔
      writeFaults.createDirectories = true ∨ writeFaults.openForWriting = true ∨
        writeFaults.write = false ∨
        ∃ contents, store (qt.fileName (savedPath storageDirectory call)) = some contents ∧
          Damaged files contents call := by
  rw [← loadsKept_truncated_iff, save_eq_writeObject]
  obtain ⟨directories, opened, written⟩ := writeFaults
  have unchanged : LoadsKept files storageDirectory store store := fun _ => ⟨rfl, rfl⟩
  cases directories with
  | true => simp [writeObject, unchanged]
  | false =>
    cases opened with
    | true => simp [writeObject, unchanged]
    | false =>
      cases written with
      | true => simp [writeObject, truncated]
      | false => simp [writeObject]

theorem not_loadsKept_of_state :
    ∃ identity, ProfileIdentity.create [77] none = .ok identity ∧
      ∃ store : FileStore plainFiles,
        (save plainFiles ⟨false, false, true⟩ store [] (.state identity ⟨none, [], []⟩)).1 =
            .error .writeFailed ∧
          ¬ LoadsKept plainFiles [] store
            (save plainFiles ⟨false, false, true⟩ store [] (.state identity ⟨none, [], []⟩)).2 := by
  refine ⟨⟨[77], none, by decide⟩, rfl,
    (saveState plainFiles noWriteFaults (fun _ => none) [] ⟨[77], none, by decide⟩
      ⟨some ⟨[103]⟩, [], []⟩).2, rfl, ?_⟩
  intro kept
  have stateKept := (kept ⟨[77], none, by decide⟩).2
  revert stateKept
  decide

end Failures

end FastModManager.Infrastructure.JsonProfilePersistence
