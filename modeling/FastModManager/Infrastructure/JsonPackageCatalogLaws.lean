import FastModManager.Infrastructure.JsonPackageCatalog
import FastModManager.Foundation.Checked
import FastModManager.Foundation.Machine

namespace FastModManager.Infrastructure.JsonPackageCatalog

open Foundation Domain Application

variable (qt : QtText)

section Paths

theorem decodeHexDigit_hexDigit :
    ∀ nibble : Fin 16,
      decodeHexDigit (hexDigit (UInt8.ofNat nibble)) = some (UInt8.ofNat nibble) := by
  decide

theorem decodeHexDigit_of_lt {nibble : UInt8} (small : nibble.toNat < 16) :
    decodeHexDigit (hexDigit nibble) = some nibble := by
  have := decodeHexDigit_hexDigit ⟨nibble.toNat, small⟩
  simpa using this

theorem highNibble_lt (byte : UInt8) : (byte >>> 4).toNat < 16 := by
  have bound := byte.toNat_lt
  simp [Nat.shiftRight_eq_div_pow]
  omega

theorem lowNibble_lt (byte : UInt8) : (byte &&& 0x0F).toNat < 16 := by
  simp only [UInt8.toNat_and]
  exact Nat.lt_of_le_of_lt Nat.and_le_right (by decide)

theorem joinNibbles (byte : UInt8) : (byte >>> 4) <<< 4 ||| byte &&& 0x0F = byte := by
  have all : ∀ value : Fin 256, (UInt8.ofNat value >>> 4) <<< 4 ||| UInt8.ofNat value &&& 0x0F =
      UInt8.ofNat value := by decide +kernel
  have here := all ⟨byte.toNat, byte.toNat_lt⟩
  simpa using here

theorem decodeDigits_encode (path : Bytes) :
    decodeDigits (path.flatMap encodeByte) = some path := by
  induction path with
  | nil => rfl
  | cons byte path ih =>
    rw [List.flatMap_cons, encodeByte, List.cons_append, List.cons_append, List.nil_append,
      decodeDigits, decodeHexDigit_of_lt (highNibble_lt byte),
      decodeHexDigit_of_lt (lowNibble_lt byte)]
    simp only [ih, Option.map_some, joinNibbles]

theorem length_encode (path : Bytes) : (path.flatMap encodeByte).length = 2 * path.length := by
  induction path with
  | nil => rfl
  | cons byte path ih =>
    rw [List.flatMap_cons, List.length_append, ih, encodeByte, List.length_cons]
    simp
    omega

theorem decodePath_encodePath {path : Bytes} (nonempty : path ≠ []) :
    decodePath qt (encodePath qt path) = .ok path := by
  have digits : path.flatMap encodeByte ≠ [] := by
    intro empty
    have length := length_encode path
    rw [empty, List.length_nil] at length
    exact nonempty (List.length_eq_zero_iff.mp (by omega))
  have even : (path.flatMap encodeByte).length % 2 = 0 := by
    rw [length_encode]
    omega
  simp only [decodePath, encodePath, qt.toLatin1_fromLatin1, digits, even, decodeDigits_encode]
  simp

end Paths

section Packages

def reencode (text : Bytes) : Bytes := qt.toStdString (qt.fromStdString text)

/-- What is read back after a package was written. -/
def reencodePackage (package : InstalledPackage) : InstalledPackage where
  id := ⟨reencode qt package.id.value⟩
  metadata :=
    { name := reencode qt package.metadata.name
      version := reencode qt package.metadata.version
      source := reencode qt package.metadata.source }
  location :=
    { stagingPath := package.location.stagingPath
      objectStoreRef := package.location.objectStoreRef.map (reencode qt) }

theorem isEmpty_fromStdString_iff {text : Bytes} :
    qt.isEmpty (qt.fromStdString text) = true ↔ reencode qt text = [] :=
  (qt.toStdString_eq_nil _).symm

theorem validatePackage_iff {package : InstalledPackage} :
    validatePackage package = true ↔ Storable package := by
  obtain ⟨id, metadata, ⟨stagingPath, objectStoreRef⟩⟩ := package
  constructor
  · intro valid
    simp only [validatePackage, Bool.and_eq_true, Bool.or_eq_true, decide_eq_true_eq] at valid
    obtain ⟨⟨⟨⟨hasId, hasName⟩, somewhere⟩, path⟩, reference⟩ := valid
    refine ⟨hasId, hasName, ?_, path, reference⟩
    simpa [Option.isSome_iff_ne_none] using somewhere
  · rintro ⟨hasId, hasName, somewhere, path, reference⟩
    simp only [validatePackage, Bool.and_eq_true, Bool.or_eq_true, decide_eq_true_eq]
    refine ⟨⟨⟨⟨hasId, hasName⟩, ?_⟩, path⟩, reference⟩
    simpa [Option.isSome_iff_ne_none] using somewhere

theorem jsonToMetadata_packageToJson {metadata : PackageMetadata}
    (named : reencode qt metadata.name ≠ []) :
    jsonToMetadata (metadataToJson qt metadata) =
      .ok ⟨reencode qt metadata.name, reencode qt metadata.version, reencode qt metadata.source⟩ := by
  have nonempty : ¬ qt.isEmpty (qt.fromStdString metadata.name) = true := by
    rwa [isEmpty_fromStdString_iff]
  simp [jsonToMetadata, metadataToJson, stringMember, List.lookup_cons, nonempty, reencode]

theorem jsonToLocation_locationToJson {location : PackageLocation}
    (somewhere : location.stagingPath ≠ none ∨ location.objectStoreRef ≠ none)
    (path : location.stagingPath ≠ some [])
    (reference : location.objectStoreRef.map (reencode qt) ≠ some []) :
    jsonToLocation (locationToJson qt location) =
      .ok ⟨location.stagingPath, location.objectStoreRef.map (reencode qt)⟩ := by
  obtain ⟨stagingPath, objectStoreRef⟩ := location
  have decoded : ∀ bytes, stagingPath = some bytes →
      decodePath qt (encodePath qt bytes) = .ok bytes := by
    rintro bytes rfl
    exact decodePath_encodePath qt fun empty => path (by rw [empty])
  have nonempty : ∀ bytes, objectStoreRef = some bytes →
      qt.isEmpty (qt.fromStdString bytes) = false := by
    rintro bytes rfl
    rw [← Bool.not_eq_true, isEmpty_fromStdString_iff]
    exact fun empty => reference (congrArg some empty)
  cases stagingPath with
  | none =>
    cases objectStoreRef with
    | none => simp at somewhere
    | some bytes =>
      simp [jsonToLocation, locationToJson, optionalMember, List.lookup_cons, nonempty bytes rfl,
        reencode, bind, Except.bind, pure, Except.pure]
  | some stagingPath =>
    cases objectStoreRef with
    | none =>
      simp [jsonToLocation, locationToJson, optionalMember, List.lookup_cons, decoded stagingPath rfl,
        bind, Except.bind, pure, Except.pure]
    | some bytes =>
      simp [jsonToLocation, locationToJson, optionalMember, List.lookup_cons, decoded stagingPath rfl,
        nonempty bytes rfl, reencode, bind, Except.bind, pure, Except.pure]

theorem jsonToPackage_packageToJson {package : InstalledPackage}
    (storable : Storable (reencodePackage qt package)) :
    jsonToPackage (packageToJson qt package) = .ok (reencodePackage qt package) := by
  have nonempty : ¬ qt.isEmpty (qt.fromStdString package.id.value) = true := by
    rw [isEmpty_fromStdString_iff]
    exact storable.id
  have somewhere : package.location.stagingPath ≠ none ∨ package.location.objectStoreRef ≠ none := by
    simpa [reencodePackage] using storable.somewhere
  have valid := validatePackage_iff.mpr storable
  have metadata := jsonToMetadata_packageToJson qt storable.name
  have location := jsonToLocation_locationToJson qt somewhere storable.stagingPath
    storable.objectStoreRef
  simp only [reencodePackage, reencode] at valid metadata location ⊢
  simp [jsonToPackage, packageToJson, stringMember, objectMember, List.lookup_cons, nonempty,
    metadata, location, valid, bind, Except.bind, pure, Except.pure]

end Packages

section Marks

variable (qt : MarkKeepingText)

theorem reencode_eq_nil {text : Bytes} : reencode qt.toQtText text = [] ↔ text = [] := by
  rw [← isEmpty_fromStdString_iff, qt.isEmpty_fromStdString]

theorem reencode_reencode (text : Bytes) :
    reencode qt.toQtText (reencode qt.toQtText text) = reencode qt.toQtText text := by
  rw [reencode, reencode, qt.fromStdString_toStdString]

theorem reencodePackage_reencodePackage (package : InstalledPackage) :
    reencodePackage qt.toQtText (reencodePackage qt.toQtText package) =
      reencodePackage qt.toQtText package := by
  obtain ⟨id, metadata, ⟨stagingPath, objectStoreRef⟩⟩ := package
  cases objectStoreRef <;> simp [reencodePackage, reencode_reencode]

theorem storable_reencodePackage {package : InstalledPackage} (storable : Storable package) :
    Storable (reencodePackage qt.toQtText package) where
  id := fun empty => storable.id ((reencode_eq_nil qt).mp empty)
  name := fun empty => storable.name ((reencode_eq_nil qt).mp empty)
  somewhere := by simpa [reencodePackage] using storable.somewhere
  stagingPath := storable.stagingPath
  objectStoreRef := by
    have reference := storable.objectStoreRef
    intro empty
    simp only [reencodePackage, Option.map_eq_some_iff, reencode_eq_nil] at empty
    obtain ⟨_, found, rfl⟩ := empty
    exact reference found

end Marks

section File

variable {qt} (json : QtJson qt)

theorem distinctKeys_catalogToJson (packages : List InstalledPackage) :
    QJsonValue.distinctKeys (.object (catalogToJson qt packages)) := by
  have item : ∀ package : InstalledPackage,
      QJsonValue.distinctKeys (.object (packageToJson qt package)) := by
    rintro ⟨id, metadata, ⟨stagingPath, objectStoreRef⟩⟩
    cases stagingPath <;> cases objectStoreRef <;>
      simp [packageToJson, metadataToJson, locationToJson, QJsonValue.distinctKeys, distinctMembers]
  have items : ∀ value ∈ packages.map fun package => QJsonValue.object (packageToJson qt package),
      value.distinctKeys := by
    intro value member
    obtain ⟨package, _, rfl⟩ := List.mem_map.mp member
    exact item package
  rw [catalogToJson, QJsonValue.distinctKeys]
  exact ⟨by simp, trivial, by rwa [QJsonValue.distinctKeys, distinctItems_iff], trivial⟩

theorem checkSchemaVersion_catalogToJson (packages : List InstalledPackage) :
    checkSchemaVersion (catalogToJson qt packages) = .ok () := by
  have positive : ¬ (1 : ℚ) ≤ 0 := by decide
  simp [checkSchemaVersion, catalogToJson, positive]

theorem loadPackages_packagesToJson {packages : List InstalledPackage}
    (storable : ∀ package ∈ packages, Storable (reencodePackage qt package)) :
    ∀ {loaded : List InstalledPackage}, (loaded.map (·.id)).Nodup →
      loadPackages (packages.map fun package => .object (packageToJson qt package)) loaded =
        if ((loaded ++ packages.map (reencodePackage qt)).map (·.id)).Nodup then
          .ok (loaded ++ packages.map (reencodePackage qt))
        else .error .invalidFormat := by
  induction packages with
  | nil => intro loaded distinct; simp [loadPackages, distinct]
  | cons package packages ih =>
    intro loaded distinct
    simp only [List.map_cons, loadPackages,
      jsonToPackage_packageToJson qt (storable package List.mem_cons_self)]
    by_cases known : (reencodePackage qt package).id ∈ loaded.map (·.id)
    · have found : loaded.any (·.id = (reencodePackage qt package).id) = true := by
        simpa using known
      have twice : ¬ ((loaded ++ reencodePackage qt package ::
          packages.map (reencodePackage qt)).map (·.id)).Nodup := by
        rw [List.map_append, List.map_cons, List.nodup_append]
        exact fun h => h.2.2 _ known _ List.mem_cons_self rfl
      rw [found, if_pos rfl, if_neg twice]
    · have fresh : loaded.any (·.id = (reencodePackage qt package).id) = false := by
        simpa using known
      rw [fresh, if_neg (by simp), ih (fun package member => storable package
        (List.mem_cons_of_mem _ member)) (nodup_ids_append distinct known)]
      simp

theorem load_toJson {packages : List InstalledPackage}
    (storable : ∀ package ∈ packages, Storable (reencodePackage qt package)) :
    load json noFaults (some (json.toJson (catalogToJson qt packages))) =
      if ((packages.map (reencodePackage qt)).map (·.id)).Nodup then
        .ok (packages.map (reencodePackage qt))
      else .error .invalidFormat := by
  have loaded :
      loadPackages (packages.map fun package => .object (packageToJson qt package)) [] = _ :=
    loadPackages_packagesToJson storable List.nodup_nil
  simp only [load, noFaults, json.fromJson_toJson _ (distinctKeys_catalogToJson packages)]
  rw [List.nil_append] at loaded
  simp only [loadDocument, checkSchemaVersion_catalogToJson]
  simpa [catalogToJson, List.lookup_cons, bind, Except.bind] using loaded

theorem save_of_storable {packages : List InstalledPackage} (file : Option json.QByteArray)
    (storable : ∀ package ∈ packages, Storable package) :
    save json noFaults file packages = (.ok (), some (json.toJson (catalogToJson qt packages))) := by
  have valid : packages.all validatePackage = true :=
    List.all_eq_true.mpr fun package member => validatePackage_iff.mpr (storable package member)
  simp [save, valid, noFaults]

theorem storable_of_jsonToPackage {object : QJsonObject qt.QString} {package : InstalledPackage}
    (h : jsonToPackage object = .ok package) : Storable package := by
  simp only [jsonToPackage] at h
  split at h
  · split at h
    · cases h
    · simp only [bind_eq_ok] at h
      obtain ⟨metadata, _, location, _, checked⟩ := h
      split at checked
      · rename_i valid
        obtain rfl := Except.ok.inj checked
        exact validatePackage_iff.mp valid
      · cases checked
  · cases h

theorem any_id_eq (packages : List InstalledPackage) (packageId : PackageId) :
    packages.any (·.id = packageId) = decide (packageId ∈ packages.map (·.id)) := by
  rw [Bool.eq_iff_iff]
  simp

theorem loadPackages_ok {items : List (QJsonValue qt.QString)} {packages : List InstalledPackage} :
    ∀ {loaded : List InstalledPackage}, loadPackages items loaded = .ok packages →
      (loaded.map (·.id)).Nodup → (∀ package ∈ loaded, Storable package) →
        (packages.map (·.id)).Nodup ∧ ∀ package ∈ packages, Storable package := by
  induction items with
  | nil =>
    intro loaded ran distinct storable
    obtain rfl := Except.ok.inj ran
    exact ⟨distinct, storable⟩
  | cons item items ih =>
    intro loaded ran distinct storable
    cases item with
    | object members =>
      simp only [loadPackages] at ran
      split at ran
      · cases ran
      · rename_i package read
        split at ran
        · cases ran
        · rename_i fresh
          have fresh' : package.id ∉ loaded.map (·.id) := by simpa using fresh
          apply ih ran
          · exact nodup_ids_append distinct fresh'
          · intro other member
            rcases List.mem_append.mp member with member | member
            · exact storable other member
            · obtain rfl := List.mem_singleton.mp member
              exact storable_of_jsonToPackage read
    | _ => cases ran

theorem load_ok {file : Option json.QByteArray} {packages : List InstalledPackage}
    (h : load json noFaults file = .ok packages) :
    (packages.map (·.id)).Nodup ∧ ∀ package ∈ packages, Storable package := by
  cases file with
  | none =>
    obtain rfl := Except.ok.inj h
    simp
  | some contents =>
    simp only [load, noFaults, Bool.or_self, Bool.false_eq_true, if_false] at h
    split at h
    · simp only [loadDocument, bind_eq_ok] at h
      obtain ⟨_, _, h⟩ := h
      split at h
      · exact loadPackages_ok h List.nodup_nil (by simp)
      · cases h
    · cases h

end File

end FastModManager.Infrastructure.JsonPackageCatalog
