/-!
# Files

A command reads files whole and writes them whole, and is otherwise independent of where they are.

## Main definitions

* `FileError`, `FileError.message` : why a file cannot be read or written.
* `FileSystem` : reading and writing files.
-/

namespace TriCore

/-- Why a file cannot be read or written. -/
inductive FileError
  | notFound
  | permissionDenied
  | notADirectory
  | isADirectory
  | nameTooLong
  /-- Any other cause, in the system's wording. -/
  | other (message : String)
deriving DecidableEq

/-- The system's wording of a cause, with its number. -/
def FileError.message : FileError → String
  | notFound => "No such file or directory (os error 2)"
  | permissionDenied => "Permission denied (os error 13)"
  | notADirectory => "Not a directory (os error 20)"
  | isADirectory => "Is a directory (os error 21)"
  | nameTooLong => "File name too long (os error 36)"
  | other message => message

/-- Reading and writing files as a whole. -/
structure FileSystem (m : Type → Type) where
  read : (path : String) → m (Except FileError (List UInt8))
  write : (path content : String) → m (Except FileError Unit)

end TriCore
