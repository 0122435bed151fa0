import FastModManager.Infrastructure.JsonPackageCatalogLaws

namespace FastModManager.Infrastructure.JsonPackageCatalog

open Foundation Domain Application

variable {qt : QtText} (json : QtJson qt)

/-- The file loads, and what it holds does not change when it is written again. -/
structure Readable (file : Option json.QByteArray) (packages : List InstalledPackage) : Prop where
  loads : load json noFaults file = .ok packages
  stable : ∀ package ∈ packages, reencodePackage qt package = package

variable {json} {file : Option json.QByteArray} {packages : List InstalledPackage}

theorem map_reencodePackage_of_stable
    (stable : ∀ package ∈ packages, reencodePackage qt package = package) :
    packages.map (reencodePackage qt) = packages := by
  rw [List.map_congr_left stable, List.map_id']

theorem Readable.missing : Readable json none [] := ⟨rfl, by simp⟩

section Steps

variable (readable : Readable json file packages)

include readable

theorem Readable.distinct : (packages.map (·.id)).Nodup := (load_ok json readable.loads).1

theorem Readable.storable : ∀ package ∈ packages, Storable package :=
  (load_ok json readable.loads).2

theorem Readable.get (packageId : PackageId) :
    get json noFaults file packageId =
      match packages.find? (·.id = packageId) with
      | none => .error .notFound
      | some package => .ok package := by
  cases found : packages.find? (·.id = packageId) <;>
    simp only [JsonPackageCatalog.get, readable.loads, found]

theorem Readable.list : list json noFaults file = .ok packages := readable.loads

theorem Readable.contains (packageId : PackageId) :
    contains json noFaults file packageId = .ok (decide (packageId ∈ packages.map (·.id))) := by
  simp only [JsonPackageCatalog.contains, readable.loads, any_id_eq]

theorem Readable.add_known {package : InstalledPackage} (storable : Storable package)
    (known : package.id ∈ packages.map (·.id)) :
    add json noFaults file package = (.error .alreadyExists, file) := by
  simp [JsonPackageCatalog.add, validatePackage_iff.mpr storable, readable.loads, any_id_eq, known]

theorem Readable.add_fresh {package : InstalledPackage} (storable : Storable package)
    (decoded : Storable (reencodePackage qt package))
    (settled : reencodePackage qt (reencodePackage qt package) = reencodePackage qt package)
    (fresh : package.id ∉ packages.map (·.id)) :
    ∃ file', add json noFaults file package = (.ok (), file') ∧
      (if (reencodePackage qt package).id ∈ packages.map (·.id) then
        load json noFaults file' = .error .invalidFormat
      else Readable json file' (packages ++ [reencodePackage qt package])) := by
  have storable' : ∀ other ∈ packages ++ [package], Storable other := by
    intro other member
    rcases List.mem_append.mp member with member | member
    · exact readable.storable other member
    · exact List.mem_singleton.mp member ▸ storable
  have decoded' : ∀ other ∈ packages ++ [package], Storable (reencodePackage qt other) := by
    intro other member
    rcases List.mem_append.mp member with member | member
    · rw [readable.stable other member]
      exact readable.storable other member
    · exact List.mem_singleton.mp member ▸ decoded
  have saved := save_of_storable json file storable'
  have loaded := load_toJson json decoded'
  rw [List.map_append, List.map_singleton, map_reencodePackage_of_stable readable.stable] at loaded
  refine ⟨some (json.toJson (catalogToJson qt (packages ++ [package]))), ?_, ?_⟩
  · simp only [JsonPackageCatalog.add, validatePackage_iff.mpr storable, if_true, readable.loads,
      any_id_eq, fresh, decide_false, Bool.false_eq_true, if_false]
    exact saved
  · split
    · rename_i taken
      rw [loaded, if_neg]
      rw [List.map_append, List.nodup_append]
      exact fun distinct => distinct.2.2 _ taken _ (List.mem_singleton_self _) rfl
    · rename_i free
      refine ⟨?_, ?_⟩
      · rw [loaded, if_pos (nodup_ids_append readable.distinct free)]
      · intro other member
        rcases List.mem_append.mp member with member | member
        · exact readable.stable other member
        · exact List.mem_singleton.mp member ▸ settled

theorem Readable.remove_unknown {packageId : PackageId}
    (unknown : packageId ∉ packages.map (·.id)) :
    remove json noFaults file packageId = (.error .notFound, file) := by
  simp [JsonPackageCatalog.remove, readable.loads, any_id_eq, unknown]

theorem Readable.remove_known {packageId : PackageId} (known : packageId ∈ packages.map (·.id)) :
    ∃ file', remove json noFaults file packageId = (.ok (), file') ∧
      Readable json file' (packages.filter (·.id ≠ packageId)) := by
  have kept : ∀ other ∈ packages.filter (·.id ≠ packageId), other ∈ packages :=
    fun other member => (List.mem_filter.mp member).1
  have storable' : ∀ other ∈ packages.filter (·.id ≠ packageId), Storable other :=
    fun other member => readable.storable other (kept other member)
  have stable' : ∀ other ∈ packages.filter (·.id ≠ packageId), reencodePackage qt other = other :=
    fun other member => readable.stable other (kept other member)
  have distinct' : ((packages.filter (·.id ≠ packageId)).map (·.id)).Nodup :=
    readable.distinct.sublist (List.filter_sublist.map _)
  have loaded := load_toJson json fun other member =>
    (stable' other member).symm ▸ storable' other member
  rw [map_reencodePackage_of_stable stable', if_pos distinct'] at loaded
  refine ⟨_, ?_, loaded, stable'⟩
  simp only [JsonPackageCatalog.remove, readable.loads, any_id_eq, known, decide_true, if_true]
  exact save_of_storable json file storable'

end Steps

section Refinement

def TextSurvives (qt : QtText) (text : Bytes) : Prop :=
  qt.toStdString (qt.fromStdString text) = text

instance (qt : QtText) (text : Bytes) : Decidable (TextSurvives qt text) :=
  inferInstanceAs (Decidable (_ = text))

structure TextsSurvive (qt : QtText) (package : InstalledPackage) : Prop where
  id : TextSurvives qt package.id.value
  name : TextSurvives qt package.metadata.name
  version : TextSurvives qt package.metadata.version
  source : TextSurvives qt package.metadata.source
  objectStoreRef : ∀ text, package.location.objectStoreRef = some text → TextSurvives qt text

theorem TextsSurvive.reencodePackage_eq {package : InstalledPackage}
    (survive : TextsSurvive qt package) : reencodePackage qt package = package := by
  obtain ⟨hasId, hasName, hasVersion, hasSource, hasReference⟩ := survive
  obtain ⟨⟨id⟩, ⟨name, version, source⟩, ⟨stagingPath, objectStoreRef⟩⟩ := package
  simp only [TextSurvives] at hasId hasName hasVersion hasSource hasReference
  simp only [reencodePackage, reencode, hasId, hasName, hasVersion, hasSource]
  cases objectStoreRef with
  | none => rfl
  | some text => simp only [Option.map_some, reencode, hasReference text rfl]

theorem Readable.simulates {catalog : OrderedCatalog}
    (readable : Readable json file catalog.packages) {call : CatalogCall}
    (survive : ∀ package, call = .add package → TextsSurvive qt package) :
    (answer json noFaults file call).1 = (catalog.answer call).1 ∧
      Readable json (answer json noFaults file call).2 (catalog.answer call).2.packages := by
  cases call with
  | get packageId =>
    cases found : catalog.packages.find? (·.id = packageId) <;>
      simp [answer, readable.get, OrderedCatalog.answer, found, readable]
  | list => exact ⟨congrArg CatalogResult.packages readable.list, readable⟩
  | contains packageId =>
    exact ⟨congrArg CatalogResult.flag (readable.contains packageId), readable⟩
  | add package =>
    simp only [answer, OrderedCatalog.answer]
    by_cases storable : Storable package
    · rw [if_pos storable]
      by_cases known : catalog.Holds package.id
      · rw [dif_pos known, readable.add_known storable known]
        exact ⟨rfl, readable⟩
      · have same := (survive package rfl).reencodePackage_eq
        obtain ⟨file', ran, result⟩ := readable.add_fresh storable (same.symm ▸ storable)
          (by rw [same, same]) known
        rw [same] at result
        rw [dif_neg known, ran]
        exact ⟨rfl, (if_neg known).mp result⟩
    · have invalid : validatePackage package = false := by
        rw [← Bool.not_eq_true, validatePackage_iff]
        exact storable
      simp only [if_neg storable, add, invalid]
      exact ⟨rfl, readable⟩
  | remove packageId =>
    simp only [answer, OrderedCatalog.answer]
    by_cases known : catalog.Holds packageId
    · obtain ⟨file', ran, result⟩ := readable.remove_known known
      rw [if_pos known, ran]
      exact ⟨rfl, result⟩
    · rw [if_neg known, readable.remove_unknown known]
      exact ⟨rfl, readable⟩

theorem refines_orderedCatalog (qt : QtText) (json : QtJson qt) (file : Option json.QByteArray)
    (packages : List InstalledPackage) (calls : List CatalogCall)
    (loads : load json noFaults file = .ok packages)
    (stored : ∀ package ∈ packages, TextsSurvive qt package)
    (added : ∀ package, CatalogCall.add package ∈ calls → TextsSurvive qt package) :
    ∃ catalog : OrderedCatalog, catalog.packages = packages ∧
      (Machine.run (answer json noFaults) file calls).1 =
        (Machine.run OrderedCatalog.answer catalog calls).1 := by
  refine ⟨⟨packages, (load_ok json loads).1⟩, rfl, ?_⟩
  have readable : Readable json file packages :=
    ⟨loads, fun package member => (stored package member).reencodePackage_eq⟩
  have simulated := Machine.run_of_simulation (answer json noFaults)
    OrderedCatalog.answer (fun file (catalog : OrderedCatalog) => Readable json file catalog.packages)
    (fun call : CatalogCall => ∀ package, call = .add package → TextsSurvive qt package)
    (fun _ _ _ readable survive => readable.simulates survive)
    (fun call member package same => added package (same ▸ member))
    file ⟨packages, (load_ok json loads).1⟩ readable
  exact simulated.1

def plainPackage (id : Bytes) : InstalledPackage :=
  ⟨⟨id⟩, ⟨[77], [49], [110]⟩, ⟨some [47, 255], none⟩⟩

theorem refines_orderedCatalog_of_missing :
    ∃ catalog : OrderedCatalog, catalog.packages = [] ∧
      (Machine.run (answer (plainJson utf8Text) noFaults) none
          [.add (plainPackage [112]), .get ⟨[112]⟩, .remove ⟨[112]⟩, .list]).1 =
        (Machine.run OrderedCatalog.answer catalog
          [.add (plainPackage [112]), .get ⟨[112]⟩, .remove ⟨[112]⟩, .list]).1 :=
  refines_orderedCatalog utf8Text (plainJson utf8Text) none [] _ rfl (by simp)
    (by
      intro package member
      obtain rfl : package = plainPackage [112] := by simpa using member
      exact ⟨by decide, by decide, by decide, by decide, by simp [plainPackage]⟩)

end Refinement

section Readability

variable (json)

/-- The catalog can be listed after the call, and a successful `add` made it one longer. -/
def StaysReadable (file : Option json.QByteArray) (call : CatalogCall) : Prop :=
  (∃ packages, list json noFaults (answer json noFaults file call).2 = .ok packages) ∧
    ∀ package, call = .add package → (answer json noFaults file call).1 = .done (.ok ()) →
      ∃ before after, list json noFaults file = .ok before ∧
        list json noFaults (answer json noFaults file call).2 = .ok after ∧
        after.length = before.length + 1

/-- No stored package has the id that an added one decodes to, unless it is that very id. -/
def IdDistinguished (file : Option json.QByteArray) (call : CatalogCall) : Prop :=
  ∀ package, call = .add package → Storable package →
    ∀ packages, load json noFaults file = .ok packages → ∀ stored ∈ packages,
      stored.id.value = qt.toStdString (qt.fromStdString package.id.value) → stored.id = package.id

section Marks

variable {qt : MarkKeepingText} {json : QtJson qt.toQtText} {file : Option json.QByteArray}

theorem Readable.answer_of_idDistinguished (readable : Readable json file packages)
    {call : CatalogCall} (distinguished : IdDistinguished json file call) :
    ∃ packages', Readable json (answer json noFaults file call).2 packages' ∧
      ∀ package, call = .add package → (answer json noFaults file call).1 = .done (.ok ()) →
        packages'.length = packages.length + 1 := by
  cases call with
  | get packageId => exact ⟨packages, readable, nofun⟩
  | list => exact ⟨packages, readable, nofun⟩
  | contains packageId => exact ⟨packages, readable, nofun⟩
  | remove packageId =>
    by_cases known : packageId ∈ packages.map (·.id)
    · obtain ⟨file', ran, result⟩ := readable.remove_known known
      exact ⟨_, by simpa only [answer, ran] using result, nofun⟩
    · exact ⟨packages, by simpa only [answer, readable.remove_unknown known] using readable, nofun⟩
  | add package =>
    by_cases storable : Storable package
    · by_cases known : package.id ∈ packages.map (·.id)
      · refine ⟨packages, ?_, ?_⟩ <;> simp only [answer, readable.add_known storable known]
        · exact readable
        · rintro _ _ failed
          cases failed
      · obtain ⟨file', ran, result⟩ := readable.add_fresh storable
          (storable_reencodePackage qt storable) (reencodePackage_reencodePackage qt package) known
        have free : (reencodePackage qt.toQtText package).id ∉ packages.map (·.id) := by
          intro taken
          obtain ⟨stored, member, same⟩ := List.mem_map.mp taken
          have own := distinguished package rfl storable packages readable.loads stored member
            (congrArg PackageId.value same)
          exact known (own ▸ List.mem_map_of_mem member)
        rw [if_neg free] at result
        exact ⟨_, by simpa only [answer, ran] using result, by simp⟩
    · have invalid : validatePackage package = false := by
        rw [← Bool.not_eq_true, validatePackage_iff]
        exact storable
      refine ⟨packages, ?_, ?_⟩ <;> simp only [answer, add, invalid, Bool.false_eq_true, if_false]
      · exact readable
      · rintro _ _ failed
        cases failed

theorem Readable.idDistinguished_of_loads (readable : Readable json file packages)
    {call : CatalogCall} {packages' : List InstalledPackage}
    (loads : load json noFaults (answer json noFaults file call).2 = .ok packages') :
    IdDistinguished json file call := by
  rintro package rfl storable before loadsBefore stored member same
  obtain rfl := Except.ok.inj (readable.loads.symm.trans loadsBefore)
  have taken : (reencodePackage qt.toQtText package).id ∈ packages.map (·.id) := by
    refine List.mem_map.mpr ⟨stored, member, ?_⟩
    rw [← PackageId.mk.injEq] at same
    exact same
  by_contra differs
  have fresh : package.id ∉ packages.map (·.id) := by
    intro known
    obtain ⟨other, otherIn, own⟩ := List.mem_map.mp known
    have stable := congrArg (fun package => package.id.value) (readable.stable other otherIn)
    simp only [reencodePackage, reencode, own] at stable
    rw [stable] at same
    exact differs (congrArg PackageId.mk same)
  obtain ⟨file', ran, result⟩ := readable.add_fresh storable
    (storable_reencodePackage qt storable) (reencodePackage_reencodePackage qt package) fresh
  rw [if_pos taken] at result
  simp only [answer, ran, result] at loads
  cases loads

/-- From a missing file, the catalog stays readable through a sequence of calls exactly if every
added id is distinguished from the stored ones after decoding. -/
theorem stays_readable_iff (qt : MarkKeepingText) (json : QtJson qt.toQtText)
    (calls : List CatalogCall) :
    Machine.Always (answer json noFaults) (StaysReadable json) none calls ↔
      Machine.Always (answer json noFaults) (IdDistinguished json) none calls := by
  refine Machine.always_congr (fun file => ∃ packages, Readable json file packages) ?_ ?_
    ⟨[], Readable.missing⟩
  · rintro file call ⟨packages, readable⟩
    constructor
    · rintro ⟨⟨packages', loads⟩, _⟩
      exact readable.idDistinguished_of_loads loads
    · intro distinguished
      obtain ⟨packages', readable', grows⟩ := readable.answer_of_idDistinguished distinguished
      exact ⟨⟨packages', readable'.loads⟩, fun package same ran =>
        ⟨packages, packages', readable.loads, readable'.loads, grows package same ran⟩⟩
  · rintro file call ⟨packages, readable⟩ distinguished
    obtain ⟨packages', readable', _⟩ := readable.answer_of_idDistinguished distinguished
    exact ⟨packages', readable'⟩

end Marks

/-- The ids `FF` and `FE` are both stored as the replacement character. -/
theorem not_stays_readable_of_malformed_ids :
    ¬ Machine.Always (answer (plainJson utf8Text) noFaults) (StaysReadable (plainJson utf8Text)) none
      [.add (plainPackage [0xFF]), .add (plainPackage [0xFE])] := by
  rintro ⟨_, ⟨⟨packages, loads⟩, _⟩, _⟩
  have unreadable : list (plainJson utf8Text) noFaults
      (answer (plainJson utf8Text) noFaults
        (answer (plainJson utf8Text) noFaults none (.add (plainPackage [0xFF]))).2
        (.add (plainPackage [0xFE]))).2 = .error .invalidFormat := by
    decide
  cases unreadable.symm.trans loads

end Readability

end FastModManager.Infrastructure.JsonPackageCatalog
