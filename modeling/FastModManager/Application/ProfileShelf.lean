import FastModManager.Application.ProfileRepository
import Mathlib.Logic.Function.Basic

namespace FastModManager.Application

open Domain

inductive SaveOutcome where
  | refused (error : ProfilePersistenceError)
  | torn
  | kept
  deriving DecidableEq, Repr

/-- What a load gets where a record is kept: nothing, what is there, or something else. -/
inductive LoadOutcome (α : Type) where
  | denied
  | held
  | replaced (result : Except ProfilePersistenceError α)
  deriving DecidableEq

def LoadOutcome.result {α : Type} (held : Except ProfilePersistenceError α) :
    LoadOutcome α → Except ProfilePersistenceError α
  | .denied => .error .accessDenied
  | .held => held
  | .replaced result => result

inductive ProfileCall where
  | save (outcome : SaveOutcome) (call : ProfileSave)
  | loadMetadata (outcome : LoadOutcome ProfileMetadata) (identity : ProfileIdentity)
  | loadState (outcome : LoadOutcome ProfileState) (identity : ProfileIdentity)
  deriving DecidableEq

inductive ProfileResult where
  | done (result : Except ProfilePersistenceError Unit)
  | metadata (result : Except ProfilePersistenceError ProfileMetadata)
  | state (result : Except ProfilePersistenceError ProfileState)
  deriving DecidableEq

inductive Place (α : Type) where
  | free
  | torn
  | kept (record : α)
  deriving DecidableEq, Repr

namespace Place

variable {α β : Type}

def read (outcome : LoadOutcome β) (use : α → Except ProfilePersistenceError β) :
    Place α → Except ProfilePersistenceError β
  | .free => .error .fileNotFound
  | .torn => outcome.result (.error .invalidFormat)
  | .kept record => outcome.result (use record)

def write (place : Place α) (record : α) : SaveOutcome → Place α
  | .refused _ => place
  | .torn => .torn
  | .kept => .kept record

end Place

def SaveOutcome.result : SaveOutcome → Except ProfilePersistenceError Unit
  | .refused error => .error error
  | .torn => .error .writeFailed
  | .kept => .ok ()

structure ProfileShelf (κ : Type) where
  metadata : κ → Place ProfileMetadata
  state : κ → Place ProfileState

namespace ProfileShelf

variable {κ : Type} [DecidableEq κ]

def empty : ProfileShelf κ := ⟨fun _ => .free, fun _ => .free⟩

def setMetadata (shelf : ProfileShelf κ) (name : κ) (place : Place ProfileMetadata) :
    ProfileShelf κ :=
  { shelf with metadata := Function.update shelf.metadata name place }

def setState (shelf : ProfileShelf κ) (name : κ) (place : Place ProfileState) : ProfileShelf κ :=
  { shelf with state := Function.update shelf.state name place }

section Places

variable {shelf : ProfileShelf κ} {name other : κ}

@[simp] theorem setMetadata_metadata (place : Place ProfileMetadata) :
    (shelf.setMetadata name place).metadata other =
      if other = name then place else shelf.metadata other :=
  Function.update_apply _ _ _ _

@[simp] theorem setMetadata_state (place : Place ProfileMetadata) :
    (shelf.setMetadata name place).state = shelf.state := rfl

@[simp] theorem setState_state (place : Place ProfileState) :
    (shelf.setState name place).state other = if other = name then place else shelf.state other :=
  Function.update_apply _ _ _ _

@[simp] theorem setState_metadata (place : Place ProfileState) :
    (shelf.setState name place).metadata = shelf.metadata := rfl

end Places

def readMetadata (recode : Bytes → Bytes) (supported : Int32 → Bool) (identity : ProfileIdentity)
    (record : ProfileMetadata) : Except ProfilePersistenceError ProfileMetadata :=
  if supported record.schemaVersion then
    .ok ⟨identity, record.schemaVersion, recode record.description⟩
  else .error .unsupportedSchemaVersion

/-- Of a state only the selected game comes back. -/
def readState (recode : Bytes → Bytes) (record : ProfileState) : ProfileState :=
  ⟨(record.selectedGameId.filter (recode ·.value ≠ [])).map fun gameId => ⟨recode gameId.value⟩,
    [], []⟩

def answer (key : ProfileIdentity → κ) (recode : Bytes → Bytes) (supported : Int32 → Bool)
    (shelf : ProfileShelf κ) : ProfileCall → ProfileResult × ProfileShelf κ
  | .save outcome (.metadata saved) =>
    let name := key saved.identity
    (.done outcome.result, shelf.setMetadata name ((shelf.metadata name).write saved outcome))
  | .save outcome (.state profile saved) =>
    let name := key profile
    (.done outcome.result, shelf.setState name ((shelf.state name).write saved outcome))
  | .loadMetadata outcome identity =>
    (.metadata ((shelf.metadata (key identity)).read outcome
      (readMetadata recode supported identity)), shelf)
  | .loadState outcome identity =>
    (.state ((shelf.state (key identity)).read outcome (.ok <| readState recode ·)), shelf)

end ProfileShelf

end FastModManager.Application
