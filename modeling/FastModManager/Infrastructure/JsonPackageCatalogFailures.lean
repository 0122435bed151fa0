import FastModManager.Infrastructure.JsonPackageCatalogLaws

namespace FastModManager.Infrastructure.JsonPackageCatalog

open Foundation Domain Application

variable {qt : QtText} {json : QtJson qt} {faults : FileFaults} {file : Option json.QByteArray}

section Calls

theorem save_failed {packages : List InstalledPackage} {error : PackageCatalogError}
    (failed : (save json faults file packages).1 = .error error) :
    (save json faults file packages).2 = file := by
  unfold save at failed ⊢
  by_cases valid : packages.all validatePackage = true
  · rw [if_pos valid] at failed ⊢
    by_cases directories : faults.createDirectories = true
    · rw [if_pos directories]
    · rw [if_neg directories] at failed ⊢
      by_cases written : (faults.openForWriting || faults.write || faults.commit) = true
      · rw [if_pos written]
      · rw [if_neg written] at failed
        cases failed
  · rw [if_neg valid]

theorem add_failed {package : InstalledPackage} {error : PackageCatalogError}
    (failed : (add json faults file package).1 = .error error) :
    (add json faults file package).2 = file := by
  unfold add at failed ⊢
  by_cases valid : validatePackage package = true
  · rw [if_pos valid] at failed ⊢
    cases loaded : load json faults file with
    | error error => rfl
    | ok packages =>
      simp only [loaded] at failed ⊢
      by_cases known : packages.any (·.id = package.id) = true
      · rw [if_pos known]
      · rw [if_neg known] at failed ⊢
        exact save_failed failed
  · rw [if_neg valid]

theorem remove_failed {packageId : PackageId} {error : PackageCatalogError}
    (failed : (remove json faults file packageId).1 = .error error) :
    (remove json faults file packageId).2 = file := by
  unfold remove at failed ⊢
  cases loaded : load json faults file with
  | error error => rfl
  | ok packages =>
    simp only [loaded] at failed ⊢
    by_cases known : packages.any (·.id = packageId) = true
    · rw [if_pos known] at failed ⊢
      exact save_failed failed
    · rw [if_neg known]

theorem add_unreadable {error : PackageCatalogError} (package : InstalledPackage)
    (unreadable : load json faults file = .error error) :
    ∃ error', add json faults file package = (.error error', file) := by
  unfold add
  split
  · exact ⟨error, by simp only [unreadable]⟩
  · exact ⟨.invalidFormat, rfl⟩

theorem remove_unreadable {error : PackageCatalogError} (packageId : PackageId)
    (unreadable : load json faults file = .error error) :
    remove json faults file packageId = (.error error, file) := by
  simp only [remove, unreadable]

theorem load_noFaults {packages : List InstalledPackage}
    (loaded : load json faults file = .ok packages) : load json noFaults file = .ok packages := by
  unfold load at loaded ⊢
  by_cases hidden : faults.existence = true
  · rw [if_pos hidden] at loaded
    cases loaded
  · rw [if_neg hidden] at loaded
    rw [if_neg (by decide)]
    cases file with
    | none => exact loaded
    | some contents =>
      simp only at loaded ⊢
      by_cases unread : (faults.openForReading || faults.read) = true
      · rw [if_pos unread] at loaded
        cases loaded
      · rw [if_neg unread] at loaded
        rwa [if_neg (by decide)]

end Calls

section Files

theorem file_kept (qt : QtText) (json : QtJson qt) (faults : FileFaults)
    (file : Option json.QByteArray) :
    (∀ package error, (add json faults file package).1 = .error error →
        (add json faults file package).2 = file) ∧
      (∀ packageId error, (remove json faults file packageId).1 = .error error →
        (remove json faults file packageId).2 = file) ∧
      (∀ packageId, (answer json faults file (.get packageId)).2 = file) ∧
      (answer json faults file .list).2 = file ∧
      (∀ packageId, (answer json faults file (.contains packageId)).2 = file) ∧
      ∀ error, load json faults file = .error error → ∀ package,
        ∃ error', add json faults file package = (.error error', file) :=
  ⟨fun _ _ failed => add_failed failed, fun _ _ failed => remove_failed failed, fun _ => rfl, rfl,
    fun _ => rfl, fun _ unreadable package => add_unreadable package unreadable⟩

theorem file_kept_of_corrupt :
    (add (plainJson utf8Text) noFaults (some none)
      ⟨⟨[112]⟩, ⟨[109], [], []⟩, ⟨some [47], none⟩⟩).2 = some none :=
  (file_kept utf8Text (plainJson utf8Text) noFaults (some none)).1 _ .invalidFormat (by decide)

variable (json)

def attempt (file : Option json.QByteArray) (event : FileFaults × CatalogCall) :
    CatalogResult × Option json.QByteArray :=
  answer json event.1 file event.2

variable {json}

theorem attempt_unreadable {error : PackageCatalogError}
    (unreadable : load json noFaults file = .error error) (event : FileFaults × CatalogCall) :
    (attempt json file event).2 = file := by
  obtain ⟨faults, call⟩ := event
  obtain ⟨error', failed⟩ : ∃ error', load json faults file = .error error' := by
    cases loaded : load json faults file with
    | error error' => exact ⟨error', rfl⟩
    | ok packages => cases unreadable.symm.trans (load_noFaults loaded)
  cases call with
  | get | list | contains => rfl
  | add package =>
    obtain ⟨_, ran⟩ := add_unreadable package failed
    simp only [attempt, answer, ran]
  | remove packageId => simp only [attempt, answer, remove_unreadable packageId failed]

theorem run_unreadable {error : PackageCatalogError}
    (unreadable : load json noFaults file = .error error)
    (events : List (FileFaults × CatalogCall)) :
    (Machine.run (attempt json) file events).2 = file :=
  Machine.run_of_fixed fun event _ => attempt_unreadable unreadable event

end Files

end FastModManager.Infrastructure.JsonPackageCatalog
