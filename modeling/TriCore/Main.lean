import TriCore.Command.Run

/-!
# The program

The disassembler on the files of the machine it runs on: it prints what a run lists, and a complaint
if the run fails.

## Main definitions

* `TriCore.Command.diskFiles` : the files on disk.
* `main` : the program.
-/

namespace TriCore.Command

/-- The cause of a failure to read or write. Errors of one kind are told apart by their numbers. -/
def FileError.ofError : IO.Error → FileError
  | .noFileOrDirectory .. => .notFound
  | .permissionDenied .. => .permissionDenied
  | .inappropriateType _ 20 _ => .notADirectory
  | .inappropriateType _ 21 _ => .isADirectory
  | .invalidArgument _ 36 _ => .nameTooLong
  | e => .other e.toString

/-- The files on disk. -/
def diskFiles : FileSystem IO where
  read path := do
    try
      return .ok (← IO.FS.readBinFile path).toList
    catch e =>
      return .error (FileError.ofError e)
  write path content := do
    try
      IO.FS.writeFile path content
      return .ok ()
    catch e =>
      return .error (FileError.ofError e)

end TriCore.Command

/-- Run the disassembler with the arguments of the program. -/
def main (args : List String) : IO UInt32 := do
  let outcome ← TriCore.Command.run TriCore.Command.diskFiles args
  IO.print outcome.output
  if let some complaint := outcome.complaint then
    IO.eprintln ("Error: " ++ complaint)
  return outcome.exitCode.toUInt32
