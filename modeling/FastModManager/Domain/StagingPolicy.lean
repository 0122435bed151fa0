import FastModManager.Domain.Package

namespace FastModManager.Domain

inductive ImportError where
  | fileNotFound
  | accessDenied
  | unsupportedFormat
  | exceedsSizeLimit
  | stagingFailed
  | invalidChecksum
  deriving DecidableEq, Repr

structure StagingPolicy where
  maxArchiveSizeBytes : UInt64 := 10 * 1024 * 1024 * 1024
  requireChecksum : Bool := true
  allowedExtensions : List Bytes :=
    [[0x2E, 0x7A, 0x69, 0x70], [0x2E, 0x37, 0x7A], [0x2E, 0x72, 0x61, 0x72],
      [0x2E, 0x74, 0x61, 0x72], [0x2E, 0x67, 0x7A]]
  deriving DecidableEq, Repr

end FastModManager.Domain
