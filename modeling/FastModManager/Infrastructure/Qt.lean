import FastModManager.Domain.Package
import FastModManager.Foundation.Utf8
import Mathlib.Data.Rat.Defs

/-! What the catalog uses of Qt: strings and JSON documents. Qt itself is a parameter; its
documented behaviour is stated as fields. -/

namespace FastModManager.Infrastructure

open Foundation Domain

structure QtText where
  QString : Type
  fromStdString : Bytes → QString
  toStdString : QString → Bytes
  fromLatin1 : Bytes → QString
  toLatin1 : QString → Bytes
  isEmpty : QString → Bool
  isEmpty_fromStdString_nil : isEmpty (fromStdString []) = true
  toStdString_eq_nil : ∀ text, toStdString text = [] ↔ isEmpty text = true
  toLatin1_fromLatin1 : ∀ bytes, toLatin1 (fromLatin1 bytes) = bytes

namespace QtText

variable (text : QtText)

def RoundTrips (bytes : Bytes) : Prop := text.toStdString (text.fromStdString bytes) = bytes

/-- The native name of the file that `QFile` opens for a path. -/
def fileName (path : Bytes) : Bytes := text.toStdString (text.fromStdString path)

theorem roundTrips_nil : text.RoundTrips [] :=
  (text.toStdString_eq_nil _).mpr text.isEmpty_fromStdString_nil

end QtText

/-- A decoder that also keeps a byte order mark at the start of a text, so that it drops nothing
and what it has decoded once stays as it is. -/
structure MarkKeepingText extends QtText where
  isEmpty_fromStdString : ∀ text, isEmpty (fromStdString text) = true ↔ text = []
  fromStdString_toStdString : ∀ text,
    fromStdString (toStdString (fromStdString text)) = fromStdString text

inductive QJsonNumber where
  | finite (value : ℚ)
  | notFinite
  deriving DecidableEq, Repr

/-- `QJsonValue::toInt`: zero for what is no `int`. -/
def QJsonNumber.toInt : QJsonNumber → Int32
  | .finite value =>
    if value.den = 1 ∧ Int32.minValue.toInt ≤ value.num ∧ value.num ≤ Int32.maxValue.toInt then
      Int32.ofInt value.num
    else 0
  | .notFinite => 0

theorem QJsonNumber.toInt_finite (value : Int32) :
    (QJsonNumber.finite (value.toInt : ℚ)).toInt = value := by
  have low := value.minValue_le_toInt
  have high := value.toInt_le
  simp only [toInt, Rat.den_intCast, Rat.num_intCast, low, high, and_self, if_true]
  exact Int32.ofInt_toInt value

inductive QJsonValue (QString : Type) where
  | null
  | bool (value : Bool)
  | double (value : QJsonNumber)
  | string (text : QString)
  | array (items : List (QJsonValue QString))
  | object (members : List (String × QJsonValue QString))

abbrev QJsonObject (QString : Type) := List (String × QJsonValue QString)

section Distinct

variable {QString : Type}

mutual

def QJsonValue.distinctKeys : QJsonValue QString → Prop
  | .array items => distinctItems items
  | .object members => (members.map Prod.fst).Nodup ∧ distinctMembers members
  | _ => True

def distinctItems : List (QJsonValue QString) → Prop
  | [] => True
  | item :: items => item.distinctKeys ∧ distinctItems items

def distinctMembers : List (String × QJsonValue QString) → Prop
  | [] => True
  | (_, value) :: members => value.distinctKeys ∧ distinctMembers members

end

theorem distinctItems_iff {items : List (QJsonValue QString)} :
    distinctItems items ↔ ∀ item ∈ items, item.distinctKeys := by
  induction items with
  | nil => simp [distinctItems]
  | cons item items ih => simp [distinctItems, ih]

end Distinct

/-- `QJsonDocument`: the bytes of a file, and the documents read from and written to them. -/
structure QtJson (text : QtText) where
  QByteArray : Type
  toJson : QJsonObject text.QString → QByteArray
  fromJson : QByteArray → Option (QJsonValue text.QString)
  fromJson_toJson : ∀ root, QJsonValue.distinctKeys (.object root) →
    fromJson (toJson root) = some (.object root)

/-- `QFile`: a file may be left empty, and the ASCII end of a path is kept in the file's name. -/
structure QtFiles (text : QtText) extends QtJson text where
  empty : QByteArray
  fromJson_empty : fromJson empty = none
  fileName_append_ascii : ∀ path suffix, (∀ byte ∈ suffix, Utf8.IsAscii byte) →
    text.fileName (path ++ suffix) = text.fileName path ++ suffix

section Utf8

def utf8KeepingText : MarkKeepingText where
  QString := List Char
  fromStdString := Utf8.decode
  toStdString := Utf8.encode
  fromLatin1 bytes := bytes.map Char.ofUInt8
  toLatin1 text := text.map fun char => if char.toNat < 256 then UInt8.ofNat char.toNat else 0x3F
  isEmpty := List.isEmpty
  isEmpty_fromStdString_nil := rfl
  isEmpty_fromStdString text := by rw [List.isEmpty_iff, Utf8.decode_eq_nil]
  toStdString_eq_nil text := by rw [List.isEmpty_iff, Utf8.encode_eq_nil]
  fromStdString_toStdString text := by rw [Utf8.decode_encode]
  toLatin1_fromLatin1 bytes := by
    rw [List.map_map]
    apply List.map_id''
    intro byte
    have same : (Char.ofUInt8 byte).toNat = byte.toNat := rfl
    simp only [Function.comp_apply, same, if_pos byte.toNat_lt, UInt8.ofNat_toNat]

def utf8Text : QtText := utf8KeepingText.toQtText

/-- Documents kept as they are; a file that is no document holds `none`. -/
def plainJson (text : QtText) : QtJson text where
  QByteArray := Option (QJsonValue text.QString)
  toJson root := some (.object root)
  fromJson := id
  fromJson_toJson _ _ := rfl

def plainFiles : QtFiles utf8Text where
  toQtJson := plainJson utf8Text
  empty := none
  fromJson_empty := rfl
  fileName_append_ascii path _ ascii := Utf8.encode_decode_append_ascii ascii path

end Utf8

end FastModManager.Infrastructure
