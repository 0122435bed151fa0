import FastModManager.Infrastructure.JsonPackageCatalogLaws

namespace FastModManager.Infrastructure.JsonPackageCatalog

open Foundation Domain Application

def IsHexDigit (digit : UInt8) : Prop :=
  (0x30 ≤ digit ∧ digit ≤ 0x39) ∨ (0x61 ≤ digit ∧ digit ≤ 0x66) ∨ 0x41 ≤ digit ∧ digit ≤ 0x46

instance : DecidablePred IsHexDigit := fun _ => inferInstanceAs (Decidable (_ ∨ _ ∨ _))

def toLower (character : UInt8) : UInt8 :=
  if 0x41 ≤ character ∧ character ≤ 0x5A then character + 0x20 else character

theorem decodeHexDigit_isSome_iff {digit : UInt8} :
    (decodeHexDigit digit).isSome = true ↔ IsHexDigit digit := by
  rw [decodeHexDigit, IsHexDigit]
  split
  · simp_all
  · split
    · simp_all
    · split <;> simp_all

theorem hexDigit_of_decodeHexDigit {digit nibble : UInt8}
    (read : decodeHexDigit digit = some nibble) :
    nibble.toNat < 16 ∧ hexDigit nibble = toLower digit := by
  have all : ∀ value : Fin 256, ∀ nibble ∈ decodeHexDigit (UInt8.ofNat value),
      nibble.toNat < 16 ∧ hexDigit nibble = toLower (UInt8.ofNat value) := by decide +kernel
  have here := all ⟨digit.toNat, digit.toNat_lt⟩ nibble
  simp only [UInt8.ofNat_toNat] at here
  exact here read

theorem splitNibbles {high low : UInt8} (highSmall : high.toNat < 16) (lowSmall : low.toNat < 16) :
    (high <<< 4 ||| low) >>> 4 = high ∧ (high <<< 4 ||| low) &&& 0x0F = low := by
  have all : ∀ high low : Fin 16,
      (UInt8.ofNat high <<< 4 ||| UInt8.ofNat low) >>> 4 = UInt8.ofNat high ∧
        (UInt8.ofNat high <<< 4 ||| UInt8.ofNat low) &&& 0x0F = UInt8.ofNat low := by decide +kernel
  have here := all ⟨high.toNat, highSmall⟩ ⟨low.toNat, lowSmall⟩
  simpa only [UInt8.ofNat_toNat] using here

theorem decodeDigits_isSome_iff : ∀ {digits : Bytes}, digits.length % 2 = 0 →
    ((decodeDigits digits).isSome = true ↔ ∀ digit ∈ digits, IsHexDigit digit)
  | [], _ => by simp [decodeDigits]
  | [_], odd => by cases odd
  | high :: low :: rest, even => by
    have evenRest : rest.length % 2 = 0 := by
      rw [List.length_cons, List.length_cons] at even
      omega
    have ih := decodeDigits_isSome_iff evenRest
    rw [List.forall_mem_cons, List.forall_mem_cons, ← ih, ← decodeHexDigit_isSome_iff,
      ← decodeHexDigit_isSome_iff, decodeDigits]
    cases decodeHexDigit high <;> cases decodeHexDigit low <;> simp

theorem encode_decodeDigits : ∀ {digits path : Bytes}, digits.length % 2 = 0 →
    decodeDigits digits = some path → path.flatMap encodeByte = digits.map toLower
  | [], path, _, read => by
    cases read
    rfl
  | [_], _, odd, _ => by cases odd
  | high :: low :: rest, path, even, read => by
    have evenRest : rest.length % 2 = 0 := by
      rw [List.length_cons, List.length_cons] at even
      omega
    rw [decodeDigits] at read
    split at read
    · rename_i highNibble lowNibble readHigh readLow
      obtain ⟨tail, readRest, rfl⟩ := Option.map_eq_some_iff.mp read
      obtain ⟨highSmall, highDigit⟩ := hexDigit_of_decodeHexDigit readHigh
      obtain ⟨lowSmall, lowDigit⟩ := hexDigit_of_decodeHexDigit readLow
      obtain ⟨highHalf, lowHalf⟩ := splitNibbles highSmall lowSmall
      rw [List.flatMap_cons, encodeByte, highHalf, lowHalf, highDigit, lowDigit,
        encode_decodeDigits evenRest readRest]
      rfl
    · cases read

variable (qt : QtText)

theorem decodePath_eq_ok_iff {text : qt.QString} {path : Bytes} :
    decodePath qt text = .ok path ↔ qt.toLatin1 text ≠ [] ∧ (qt.toLatin1 text).length % 2 = 0 ∧
      decodeDigits (qt.toLatin1 text) = some path := by
  simp only [decodePath]
  split
  · rename_i malformed
    constructor
    · intro ran
      cases ran
    · rintro ⟨nonempty, even, _⟩
      exact absurd malformed (not_or.mpr ⟨nonempty, not_not.mpr even⟩)
  · rename_i wellFormed
    obtain ⟨nonempty, even⟩ := not_or.mp wellFormed
    rw [and_iff_right nonempty, and_iff_right (not_not.mp even)]
    cases decodeDigits (qt.toLatin1 text) <;> simp

theorem paths_stored_bijectively (path text : Bytes) :
    (path ≠ [] → decodePath qt (encodePath qt path) = .ok path) ∧
    ((∃ decoded, decodePath qt (qt.fromLatin1 text) = .ok decoded) ↔
      text ≠ [] ∧ text.length % 2 = 0 ∧ ∀ digit ∈ text, IsHexDigit digit) ∧
    ∀ decoded, decodePath qt (qt.fromLatin1 text) = .ok decoded →
      encodePath qt decoded = qt.fromLatin1 (text.map toLower) := by
  refine ⟨decodePath_encodePath qt, ?_, fun decoded read => ?_⟩
  · simp only [decodePath_eq_ok_iff, qt.toLatin1_fromLatin1, exists_and_left]
    apply and_congr_right
    intro _
    apply and_congr_right
    intro even
    rw [← decodeDigits_isSome_iff even, Option.isSome_iff_exists]
  · obtain ⟨_, even, digits⟩ := (decodePath_eq_ok_iff qt).mp read
    rw [qt.toLatin1_fromLatin1] at even digits
    rw [encodePath, encode_decodeDigits even digits]

end FastModManager.Infrastructure.JsonPackageCatalog
