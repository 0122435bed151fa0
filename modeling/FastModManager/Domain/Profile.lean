import FastModManager.Domain.Package

namespace FastModManager.Domain

structure GameId where
  value : Bytes
  deriving DecidableEq, Repr

structure PluginId where
  value : Bytes
  deriving DecidableEq, Repr

inductive ProfileIdentityError where
  | emptyName
  | invalidCharacters
  | trailingOrLeadingWhitespace
  | nameTooLong
  | reservedName
  deriving DecidableEq, Repr

def maxProfileNameLength : Nat := 255

/-- The bytes `/`, `\`, NUL, `:`, `*`, `?`, `"`, `<`, `>` and `|`. -/
def invalidNameBytes : Bytes :=
  [slash, 0x5C, 0x00, 0x3A, 0x2A, 0x3F, 0x22, 0x3C, 0x3E, 0x7C]

structure ValidProfileName (name : Bytes) : Prop where
  nonempty : name ≠ []
  trimmed : ¬ (name.head? = some 0x20 ∨ name.getLast? = some 0x20)
  short : ¬ name.length > maxProfileNameLength
  unreserved : ¬ (name = [0x2E] ∨ name = [0x2E, 0x2E])
  valid : ¬ ∃ byte ∈ name, byte ∈ invalidNameBytes

instance (name : Bytes) : Decidable (ValidProfileName name) :=
  decidable_of_iff
    (name ≠ [] ∧ ¬ (name.head? = some 0x20 ∨ name.getLast? = some 0x20) ∧
      ¬ name.length > maxProfileNameLength ∧ ¬ (name = [0x2E] ∨ name = [0x2E, 0x2E]) ∧
      ¬ ∃ byte ∈ name, byte ∈ invalidNameBytes)
    ⟨fun ⟨nonempty, trimmed, short, unreserved, valid⟩ =>
      ⟨nonempty, trimmed, short, unreserved, valid⟩,
    fun ⟨nonempty, trimmed, short, unreserved, valid⟩ =>
      ⟨nonempty, trimmed, short, unreserved, valid⟩⟩

structure ProfileIdentity where
  name : Bytes
  parentId : Option Bytes
  validName : ValidProfileName name
  deriving DecidableEq

namespace ProfileIdentity

def create (name : Bytes) (parentId : Option Bytes) : Except ProfileIdentityError ProfileIdentity :=
  if nonempty : name = [] then .error .emptyName
  else if trimmed : name.head? = some 0x20 ∨ name.getLast? = some 0x20 then
    .error .trailingOrLeadingWhitespace
  else if short : name.length > maxProfileNameLength then .error .nameTooLong
  else if unreserved : name = [0x2E] ∨ name = [0x2E, 0x2E] then .error .reservedName
  else if valid : ∃ byte ∈ name, byte ∈ invalidNameBytes then .error .invalidCharacters
  else .ok ⟨name, parentId, nonempty, trimmed, short, unreserved, valid⟩

theorem create_eq_ok_iff {name : Bytes} {parentId : Option Bytes} {identity : ProfileIdentity} :
    create name parentId = .ok identity ↔ identity.name = name ∧ identity.parentId = parentId := by
  constructor
  · intro created
    unfold create at created
    repeat' split at created
    all_goals cases created
    exact ⟨rfl, rfl⟩
  · rintro ⟨rfl, rfl⟩
    obtain ⟨name, parentId, ⟨nonempty, trimmed, short, unreserved, valid⟩⟩ := identity
    simp only [create, dif_neg nonempty, dif_neg trimmed, dif_neg short, dif_neg unreserved,
      dif_neg valid]

theorem name_ne_nil (identity : ProfileIdentity) : identity.name ≠ [] := identity.validName.nonempty

theorem slash_not_mem_name (identity : ProfileIdentity) : slash ∉ identity.name := fun member =>
  identity.validName.valid ⟨slash, member, List.mem_cons_self⟩

end ProfileIdentity

structure ProfileMetadata where
  identity : ProfileIdentity
  schemaVersion : Int32 := 0
  description : Bytes
  deriving DecidableEq

structure ProfileState where
  selectedGameId : Option GameId
  enabledPackages : List PackageId
  loadOrder : List PluginId
  deriving DecidableEq, Repr

end FastModManager.Domain
