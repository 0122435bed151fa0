import FastModManager.Infrastructure.JsonPackageCatalogFailures
import FastModManager.Infrastructure.JsonPackageCatalogRuns

namespace FastModManager.Infrastructure.JsonPackageCatalog

open Foundation Domain Application

variable {qt : QtText} {json : QtJson qt} {faults : FileFaults} {file : Option json.QByteArray}
  {packages : List InstalledPackage}

def ioFailed : CatalogResult → Bool
  | .package (.error .ioError) => true
  | .packages (.error .ioError) => true
  | .done (.error .ioError) => true
  | .flag (.error .ioError) => true
  | _ => false

theorem ioFailed_answer (catalog : OrderedCatalog) (call : CatalogCall) :
    ioFailed (catalog.answer call).1 = false := by
  cases call with
  | get packageId =>
    cases found : catalog.packages.find? (·.id = packageId) <;>
      simp only [OrderedCatalog.answer, found, ioFailed]
  | list | contains => rfl
  | add package =>
    by_cases storable : Storable package
    · by_cases known : catalog.Holds package.id <;>
        simp only [OrderedCatalog.answer, if_pos storable, known, dif_pos, dif_neg, not_false_eq_true,
          ioFailed]
    · simp only [OrderedCatalog.answer, if_neg storable, ioFailed]
  | remove packageId =>
    by_cases known : catalog.Holds packageId <;>
      simp only [OrderedCatalog.answer, known, if_pos, if_neg, not_false_eq_true, ioFailed]

theorem load_faults (loads : load json noFaults file = .ok packages) (faults : FileFaults) :
    load json faults file = .error .ioError ∨ load json faults file = .ok packages := by
  unfold load at loads ⊢
  rw [if_neg (by decide)] at loads
  by_cases hidden : faults.existence = true
  · rw [if_pos hidden]
    exact .inl rfl
  · rw [if_neg hidden]
    cases file with
    | none => exact .inr loads
    | some contents =>
      simp only at loads ⊢
      rw [if_neg (by decide)] at loads
      by_cases unread : (faults.openForReading || faults.read) = true
      · rw [if_pos unread]
        exact .inl rfl
      · rw [if_neg unread]
        exact .inr loads

theorem save_faults (faults : FileFaults) (packages : List InstalledPackage) :
    save json faults file packages = (.error .ioError, file) ∨
      save json faults file packages = save json noFaults file packages := by
  unfold save
  split
  · by_cases directories : faults.createDirectories = true
    · rw [if_pos directories]
      exact .inl rfl
    · rw [if_neg directories, if_neg (by decide : ¬ noFaults.createDirectories = true)]
      by_cases written : (faults.openForWriting || faults.write || faults.commit) = true
      · rw [if_pos written]
        exact .inl rfl
      · rw [if_neg written]
        exact .inr rfl
  · exact .inr rfl

theorem answer_faults (loads : load json noFaults file = .ok packages) (faults : FileFaults)
    (call : CatalogCall) :
    (ioFailed (answer json faults file call).1 = true ∧ (answer json faults file call).2 = file) ∨
      answer json faults file call = answer json noFaults file call := by
  rcases load_faults loads faults with hidden | seen
  · cases call with
    | add package =>
      by_cases valid : validatePackage package = true
      · left
        simp only [answer, add, if_pos valid, hidden, ioFailed, and_self]
      · right
        simp only [answer, add, if_neg valid]
    | get | list | remove | contains =>
      left
      simp only [answer, get, list, remove, contains, hidden, ioFailed, and_self]
  · cases call with
    | get | list | contains =>
      right
      simp only [answer, get, list, contains, seen, loads]
    | add package =>
      simp only [answer, add, seen, loads]
      by_cases valid : validatePackage package = true
      · simp only [if_pos valid]
        by_cases known : packages.any (·.id = package.id) = true
        · right
          simp only [if_pos known]
        · simp only [if_neg known]
          rcases save_faults faults (packages ++ [package]) with failed | saved
          · left
            rw [failed]
            exact ⟨rfl, rfl⟩
          · right
            rw [saved]
      · right
        simp only [if_neg valid]
    | remove packageId =>
      simp only [answer, remove, seen, loads]
      by_cases known : packages.any (·.id = packageId) = true
      · simp only [if_pos known]
        rcases save_faults faults (packages.filter (·.id ≠ packageId)) with failed | saved
        · left
          rw [failed]
          exact ⟨rfl, rfl⟩
        · right
          rw [saved]
      · right
        simp only [if_neg known]

/-- Whatever faults meet the calls, those that do not answer with an I/O error answer as the
ordered map does when they alone are made, and the file then holds its packages. -/
theorem refines_despite_faults (qt : QtText) (json : QtJson qt) (file : Option json.QByteArray)
    (packages : List InstalledPackage) (events : List (FileFaults × CatalogCall))
    (loads : load json noFaults file = .ok packages)
    (stored : ∀ package ∈ packages, TextsSurvive qt package)
    (added : ∀ faults package, (faults, CatalogCall.add package) ∈ events →
      TextsSurvive qt package) :
    ∃ catalog : OrderedCatalog, catalog.packages = packages ∧
      let answered := Machine.answered (attempt json) ioFailed file events
      let abstract := Machine.run OrderedCatalog.answer catalog (answered.map (·.2.2))
      answered.map Prod.fst = abstract.1 ∧
        load json noFaults (Machine.run (attempt json) file events).2 = .ok abstract.2.packages := by
  refine ⟨⟨packages, (load_ok json loads).1⟩, rfl, ?_⟩
  have readable : Readable json file packages :=
    ⟨loads, fun package member => (stored package member).reencodePackage_eq⟩
  have simulated := @Machine.answered_of_simulation _ _ _ _ _ (attempt json) ioFailed
    OrderedCatalog.answer Prod.snd
    (fun file (catalog : OrderedCatalog) => Readable json file catalog.packages) events ?_
    file ⟨packages, (load_ok json loads).1⟩ readable
  · exact ⟨simulated.1, simulated.2.loads⟩
  · rintro file catalog ⟨faults, call⟩ member readable
    obtain ⟨same, readable'⟩ := readable.simulates fun package isAdd =>
      added faults package (isAdd ▸ member)
    rcases answer_faults readable.loads faults call with ⟨failed, kept⟩ | undisturbed
    · refine .inl ⟨failed, ?_⟩
      rwa [attempt, kept]
    · refine .inr ?_
      rw [attempt, undisturbed, same]
      exact ⟨ioFailed_answer catalog call, rfl, readable'⟩

def disturbedCalls : List (FileFaults × CatalogCall) :=
  [(noFaults, .add (plainPackage [112])),
    ({ noFaults with commit := true }, .add (plainPackage [113])), (noFaults, .list)]

example : Machine.answered (attempt (plainJson utf8Text)) ioFailed none disturbedCalls =
    [(.done (.ok ()), (noFaults, .add (plainPackage [112]))),
      (.packages (.ok [plainPackage [112]]), (noFaults, .list))] := by decide

theorem refines_despite_faults_of_missing :
    ∃ catalog : OrderedCatalog, catalog.packages = [] ∧
      let answered := Machine.answered (attempt (plainJson utf8Text)) ioFailed none disturbedCalls
      let abstract := Machine.run OrderedCatalog.answer catalog (answered.map (·.2.2))
      answered.map Prod.fst = abstract.1 ∧
        load (plainJson utf8Text) noFaults
          (Machine.run (attempt (plainJson utf8Text)) none disturbedCalls).2 =
            .ok abstract.2.packages := by
  refine refines_despite_faults utf8Text (plainJson utf8Text) none [] disturbedCalls rfl (by simp) ?_
  intro faults package member
  have planned : package = plainPackage [112] ∨ package = plainPackage [113] := by
    simp only [disturbedCalls, List.mem_cons, Prod.mk.injEq, CatalogCall.add.injEq] at member
    rcases member with ⟨_, first⟩ | ⟨_, second⟩ | ⟨_, listed⟩ | absent
    · exact .inl first
    · exact .inr second
    · cases listed
    · exact absurd absent List.not_mem_nil
  rcases planned with rfl | rfl
  · exact ⟨by decide, by decide, by decide, by decide, by simp [plainPackage]⟩
  · exact ⟨by decide, by decide, by decide, by decide, by simp [plainPackage]⟩

end FastModManager.Infrastructure.JsonPackageCatalog
