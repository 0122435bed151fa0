import FastModManager.Domain.Profile

namespace FastModManager.Application

open Domain

inductive ProfilePersistenceError where
  | fileNotFound
  | accessDenied
  | invalidFormat
  | unsupportedSchemaVersion
  | writeFailed
  deriving DecidableEq, Repr

inductive ProfileSave where
  | metadata (saved : ProfileMetadata)
  | state (profile : ProfileIdentity) (saved : ProfileState)
  deriving DecidableEq

def ProfileSave.identity : ProfileSave → ProfileIdentity
  | .metadata saved => saved.identity
  | .state profile _ => profile

end FastModManager.Application
