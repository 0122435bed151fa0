import FastModManager.Domain.Package

namespace FastModManager.Infrastructure.NativePath

open Domain

def dot : UInt8 := 0x2E

def append (directory name : Bytes) : Bytes :=
  if name.head? = some slash then name
  else if directory = [] ∨ directory.getLast? = some slash then directory ++ name
  else directory ++ slash :: name

def filename (path : Bytes) : Bytes := (path.reverse.takeWhile (· ≠ slash)).reverse

/-- The last dot of the file name and what follows it, but not a dot that starts the name. -/
def extension (path : Bytes) : Bytes :=
  let name := filename path
  let suffix := name.reverse.takeWhile (· ≠ dot)
  if suffix.length + 1 < name.length ∧ name ≠ [dot, dot] then
    name.drop (name.length - (suffix.length + 1))
  else []

def stem (path : Bytes) : Bytes :=
  (filename path).take ((filename path).length - (extension path).length)

theorem append_of_relative {directory name : Bytes} (relative : name.head? ≠ some slash) :
    append directory name =
      (if directory = [] ∨ directory.getLast? = some slash then directory
        else directory ++ [slash]) ++ name := by
  rw [append, if_neg relative]
  split <;> simp

theorem append_injective {directory name name' : Bytes} (relative : name.head? ≠ some slash)
    (relative' : name'.head? ≠ some slash) (same : append directory name = append directory name') :
    name = name' := by
  rw [append_of_relative relative, append_of_relative relative'] at same
  exact List.append_cancel_left same

theorem append_of_named {directory name : Bytes} (nonempty : directory ≠ [])
    (named : directory.getLast? ≠ some slash) (relative : name.head? ≠ some slash) :
    append directory name = directory ++ slash :: name := by
  rw [append, if_neg relative, if_neg (not_or.mpr ⟨nonempty, named⟩)]

end FastModManager.Infrastructure.NativePath
