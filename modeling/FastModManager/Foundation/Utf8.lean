import Mathlib.Data.List.Basic

namespace FastModManager.Foundation.Utf8

def replacement : Char := Char.ofNat 0xFFFD

def encode (text : List Char) : List UInt8 := text.flatMap String.utf8EncodeChar

/-- Every byte that starts no character is replaced. -/
def decodeFrom : Nat → List UInt8 → List Char
  | 0, _ => []
  | _ + 1, [] => []
  | fuel + 1, byte :: rest =>
    match (byte :: rest).toByteArray.utf8DecodeChar? 0 with
    | some char => char :: decodeFrom fuel ((byte :: rest).drop char.utf8Size)
    | none => replacement :: decodeFrom fuel rest

def decode (bytes : List UInt8) : List Char := decodeFrom bytes.length bytes

theorem encode_eq_nil {text : List Char} : encode text = [] ↔ text = [] := by
  cases text with
  | nil => simp [encode]
  | cons char text =>
    have nonempty : String.utf8EncodeChar char ≠ [] := by
      intro empty
      have length := congrArg List.length empty
      rw [String.length_utf8EncodeChar] at length
      exact absurd length (Nat.ne_of_gt char.utf8Size_pos)
    simp [encode, nonempty]

theorem decode_eq_nil {bytes : List UInt8} : decode bytes = [] ↔ bytes = [] := by
  cases bytes with
  | nil => simp [decode, decodeFrom]
  | cons byte rest =>
    rw [decode, List.length_cons, decodeFrom]
    split <;> simp

theorem decodeFrom_encode (text : List Char) :
    ∀ fuel, (encode text).length ≤ fuel → decodeFrom fuel (encode text) = text := by
  induction text with
  | nil => intro fuel _; cases fuel <;> rfl
  | cons char text ih =>
    intro fuel enough
    have split : encode (char :: text) = String.utf8EncodeChar char ++ encode text := rfl
    have size := String.length_utf8EncodeChar char
    have positive := char.utf8Size_pos
    rw [split, List.length_append] at enough
    obtain ⟨fuel, rfl⟩ := Nat.exists_eq_succ_of_ne_zero (n := fuel) (by omega)
    obtain ⟨byte, rest, bytes⟩ : ∃ byte rest, encode (char :: text) = byte :: rest := by
      apply List.exists_cons_of_ne_nil
      simp [encode_eq_nil]
    have decoded : (byte :: rest).toByteArray.utf8DecodeChar? 0 = some char := by
      rw [← bytes, split, List.toByteArray_append]
      exact ByteArray.utf8DecodeChar?_utf8EncodeChar_append
    have dropped : (byte :: rest).drop char.utf8Size = encode text := by
      rw [← bytes, split, ← size, List.drop_left]
    rw [bytes, decodeFrom, decoded]
    simp only [dropped, ih fuel (by omega)]

theorem decode_encode (text : List Char) : decode (encode text) = text :=
  decodeFrom_encode text _ (Nat.le_refl _)

section Ascii

def IsAscii (byte : UInt8) : Prop := byte < 0x80

instance (byte : UInt8) : Decidable (IsAscii byte) := inferInstanceAs (Decidable (_ < _))

theorem encodeChar_ofUInt8 {byte : UInt8} (ascii : IsAscii byte) :
    String.utf8EncodeChar (Char.ofUInt8 byte) = [byte] := by
  have value : (Char.ofUInt8 byte).val.toNat = byte.toNat := rfl
  have small : byte.toNat ≤ 127 := by
    have := UInt8.lt_iff_toNat_lt.mp ascii
    simp at this
    omega
  simp only [String.utf8EncodeChar, value, if_pos small, UInt8.ofNat_toNat]

theorem encode_map_ofUInt8 {bytes : List UInt8} (ascii : ∀ byte ∈ bytes, IsAscii byte) :
    encode (bytes.map Char.ofUInt8) = bytes := by
  induction bytes with
  | nil => rfl
  | cons byte bytes ih =>
    rw [List.map_cons, encode, List.flatMap_cons, encodeChar_ofUInt8 (ascii byte List.mem_cons_self),
      ← encode, ih fun other member => ascii other (List.mem_cons_of_mem _ member)]
    rfl

theorem ofNat_not_ascii {value : Nat} (low : 128 ≤ value) (high : value < 256) :
    ¬ IsAscii (UInt8.ofNat value) := by
  rw [IsAscii, UInt8.lt_iff_toNat_lt]
  simp [Nat.mod_eq_of_lt high]
  omega

theorem not_ascii_of_long {char : Char} (long : 1 < (String.utf8EncodeChar char).length) :
    ∀ byte ∈ String.utf8EncodeChar char, ¬ IsAscii byte := by
  simp only [String.utf8EncodeChar] at long ⊢
  by_cases one : char.val.toNat ≤ 127
  · rw [if_pos one] at long
    simp at long
  · rw [if_neg one]
    clear long
    split
    · simp only [List.forall_mem_cons]
      refine ⟨?_, ?_, by simp⟩ <;> apply ofNat_not_ascii <;> omega
    · split
      · simp only [List.forall_mem_cons]
        refine ⟨?_, ?_, ?_, by simp⟩ <;> apply ofNat_not_ascii <;> omega
      · simp only [List.forall_mem_cons]
        refine ⟨?_, ?_, ?_, ?_, by simp⟩ <;> apply ofNat_not_ascii <;> omega

theorem decodeChar_append_ascii {bytes suffix : List UInt8} (nonempty : bytes ≠ [])
    (ascii : ∀ byte ∈ suffix, IsAscii byte) :
    (bytes ++ suffix).toByteArray.utf8DecodeChar? 0 = bytes.toByteArray.utf8DecodeChar? 0 := by
  cases alone : bytes.toByteArray.utf8DecodeChar? 0 with
  | some char =>
    rw [List.toByteArray_append]
    exact ByteArray.utf8DecodeChar?_append_eq_some alone _
  | none =>
    cases joined : (bytes ++ suffix).toByteArray.utf8DecodeChar? 0 with
    | none => rfl
    | some char =>
      obtain ⟨⟨⟨after⟩⟩, split⟩ := ByteArray.exists_of_utf8DecodeChar?_eq_some joined
      have split : bytes ++ suffix = String.utf8EncodeChar char ++ after := by
        apply List.toByteArray_inj.mp
        rw [split, List.toByteArray_append]
        congr 1
        apply ByteArray.ext
        rw [List.data_toByteArray]
      rcases List.append_eq_append_iff.mp split with ⟨inner, whole, rest⟩ | ⟨inner, whole, _⟩
      · -- the character would reach into the suffix, so it is long and holds an ASCII byte
        cases inner with
        | nil =>
          rw [List.append_nil] at whole
          rw [← whole, ← List.append_nil (String.utf8EncodeChar char), List.toByteArray_append,
            ByteArray.utf8DecodeChar?_utf8EncodeChar_append] at alone
          cases alone
        | cons first inner =>
          have long : 1 < (String.utf8EncodeChar char).length := by
            have := List.length_pos_iff.mpr nonempty
            rw [whole, List.length_append, List.length_cons]
            omega
          exact absurd (ascii first (by simp [rest])) (not_ascii_of_long long first (by simp [whole]))
      · rw [whole, List.toByteArray_append, ByteArray.utf8DecodeChar?_utf8EncodeChar_append] at alone
        cases alone

theorem decodeFrom_of_le {bytes : List UInt8} :
    ∀ {fuel : Nat}, bytes.length ≤ fuel → decodeFrom fuel bytes = decode bytes := by
  have agree : ∀ (fuel fuel' : Nat) (bytes : List UInt8), bytes.length ≤ fuel →
      bytes.length ≤ fuel' → decodeFrom fuel bytes = decodeFrom fuel' bytes := by
    intro fuel
    induction fuel with
    | zero =>
      intro fuel' bytes none _
      rw [List.length_eq_zero_iff.mp (Nat.le_zero.mp none)]
      cases fuel' <;> rfl
    | succ fuel ih =>
      intro fuel' bytes enough enough'
      cases bytes with
      | nil => cases fuel' <;> rfl
      | cons byte rest =>
        cases fuel' with
        | zero => simp at enough'
        | succ fuel' =>
          rw [List.length_cons] at enough enough'
          simp only [decodeFrom]
          split
          · rename_i char _
            have positive := char.utf8Size_pos
            congr 1
            apply ih <;> simp only [List.length_drop, List.length_cons] <;> omega
          · congr 1
            apply ih <;> omega
  intro fuel enough
  exact agree fuel bytes.length bytes enough (Nat.le_refl _)

theorem decode_append_ascii {suffix : List UInt8} (ascii : ∀ byte ∈ suffix, IsAscii byte)
    (bytes : List UInt8) : decode (bytes ++ suffix) = decode bytes ++ decode suffix := by
  induction size : bytes.length using Nat.strongRecOn generalizing bytes with
  | ind size ih =>
    subst size
    cases bytes with
    | nil => rfl
    | cons byte rest =>
      have first := decodeChar_append_ascii (List.cons_ne_nil byte rest) ascii
      rw [List.cons_append] at first
      rw [decode, decode, List.cons_append, List.length_cons, List.length_cons, decodeFrom, first,
        decodeFrom]
      split
      · rename_i char read
        have inside := ByteArray.le_size_of_utf8DecodeChar?_eq_some read
        have positive := char.utf8Size_pos
        rw [List.size_toByteArray, List.length_cons] at inside
        rw [← List.cons_append, List.drop_append_of_le_length (by rw [List.length_cons]; omega)]
        rw [decodeFrom_of_le, decodeFrom_of_le, ih _ _ _ rfl, List.cons_append]
        all_goals simp only [List.length_append, List.length_drop, List.length_cons]
        all_goals omega
      · rw [decodeFrom_of_le (Nat.le_refl _), decodeFrom_of_le (Nat.le_refl _),
          ih _ (by simp) _ rfl, List.cons_append]

theorem encode_decode_append_ascii {suffix : List UInt8} (ascii : ∀ byte ∈ suffix, IsAscii byte)
    (bytes : List UInt8) : encode (decode (bytes ++ suffix)) = encode (decode bytes) ++ suffix := by
  have own : encode (decode suffix) = suffix := by
    conv_lhs => rw [← encode_map_ofUInt8 ascii, decode_encode]
    exact encode_map_ofUInt8 ascii
  calc encode (decode (bytes ++ suffix))
      = encode (decode bytes ++ decode suffix) := by rw [decode_append_ascii ascii]
    _ = encode (decode bytes) ++ encode (decode suffix) := List.flatMap_append
    _ = encode (decode bytes) ++ suffix := by rw [own]

end Ascii

end FastModManager.Foundation.Utf8
