import TriCore.Command.Arguments
import TriCore.Command.Files
import TriCore.Configuration
import TriCore.Image
import TriCore.Json.Reader
import TriCore.Listing

/-!
# Running the disassembler

A run loads the file, then the configuration, and then does what it was asked for. The first thing
that goes wrong ends it with one message. The bounds of a range are looked at after both files, the
start before the end.

## Main definitions

* `Command.Failure`, `Command.Failure.message` : what can go wrong.
* `Command.readAddress` : an address given as text.
* `Command.extent`, `Command.entry` : the bytes of an attempt, and what is listed of it.
* `Command.sectionsText`, `Command.rangeText` : what the two subcommands list.
* `Command.Outcome`, `Command.run` : a run and how it ends.
-/

namespace TriCore.Command

/-! ### Failures -/

/-- What can go wrong once the arguments are understood. -/
inductive Failure
  | file (error : FileError)
  | load (error : Image.LoadError)
  | configurationUnreadable (path : String)
  | configurationInvalid (path : String)
  | invalidAddress (error : Text.NumeralError)
  | rangeReversed
  | unmapped (address : UInt64)
deriving DecidableEq

/-- The message that ends a run. -/
def Failure.message : Failure → String
  | file error => error.message
  | load error => error.message
  | configurationUnreadable path => "reading " ++ path
  | configurationInvalid path => "parsing " ++ path
  | invalidAddress error => error.message
  | rangeReversed => "end must be >= start"
  | unmapped address => Text.hex address.toNat ++ " is not mapped"

/-! ### Addresses -/

/-- The address that a text denotes, with any blanks around it: a hexadecimal number behind its
mark, or a decimal one. -/
def readAddress (text : String) : Except Text.NumeralError UInt64 :=
  let number := match Text.trim text.toList with
    | '0' :: 'x' :: digits => Text.readNumeral 16 UInt64.size digits
    | '0' :: 'X' :: digits => Text.readNumeral 16 UInt64.size digits
    | digits => Text.readNumeral 10 UInt64.size digits
  number.map UInt64.ofNat

/-! ### What is listed -/

/-- A text filled up with blanks to at least `width` characters. -/
def column (width : Nat) (text : String) : String :=
  text ++ String.ofList (List.replicate (width - text.length) ' ')

/-- The row of a segment. -/
def sectionRow (s : Segment) : String :=
  column 10 s.name ++ " " ++ Text.paddedHex 8 s.base.toNat ++ " " ++ Text.paddedHex 8 s.stop ++
    " " ++ column 6 s.permissions ++ " " ++ column 6 s.kind ++ "\n"

/-- The segments of an image, one row each under a header. -/
def sectionsText (image : Image) : String :=
  column 10 "name" ++ " " ++ column 12 "start" ++ " " ++ column 12 "end" ++ " " ++
    column 6 "perms" ++ " " ++ column 6 "kind" ++ "\n" ++
    String.join (image.segments.map sectionRow)

/-- The bytes of a range, with the address of the first one. -/
def rangeWindow (image : Image) (r : Range) : Except Failure (UInt64 × List UInt8) := do
  let start ← (readAddress r.start).mapError .invalidAddress
  let stop ← (readAddress r.stop).mapError .invalidAddress
  if stop < start then .error .rangeReversed
  else
    match image.window start stop with
    | some bytes => return (start, bytes)
    | none => .error (.unmapped start)

/-- Where the bytes of an attempt begin and end in a window whose first byte is at `start`. They
begin at the address of the attempt and are as many as the instruction has, or two if there is no
instruction, but never reach beyond the window. -/
def extent (start : UInt64) (window : List UInt8) (a : Attempt) : Nat × Nat :=
  let low := (a.address - start).toNat
  let size := match a.result with
    | .ok i => i.size
    | .error _ => 2
  (low, min (low + size) window.length)

/-- The entry of an attempt over a window whose first byte is at `start`. -/
def entry (showBytes : Bool) (start : UInt64) (window : List UInt8) (a : Attempt) :
    Listing.Entry :=
  let (low, high) := extent start window a
  ⟨a.address, if showBytes then some (window.extract low high) else none, a.result⟩

/-- The entries of the attempts over a range. -/
def rangeEntries (image : Image) (features : Features) (r : Range) :
    Except Failure (List Listing.Entry) := do
  let (start, window) ← rangeWindow image r
  return ((Decoder.standard features).sweep window start).map (entry r.showBytes start window)

/-- A listing in the form that is asked for. -/
def listing (form : ListingForm) (entries : List Listing.Entry) : String :=
  match form with
  | .text => Listing.text entries
  | .json => (Listing.document entries).pretty ++ "\n"

/-- The listing of a range. -/
def rangeText (image : Image) (features : Features) (r : Range) : Except Failure String :=
  (rangeEntries image features r).map (listing r.form)

/-! ### Runs -/

variable {m : Type → Type} [Monad m]

/-- The image of the input file. -/
def loadImage (files : FileSystem m) (settings : Settings) : ExceptT Failure m Image := do
  let file ← ExceptT.mk do return (← files.read settings.input).mapError .file
  let image ← (Image.load file settings.base settings.skip settings.limit).mapError Failure.load
  return image

/-- The configuration in a text. -/
def configuration? (bytes : List UInt8) : Option (Option Configuration) :=
  (String.fromUTF8? ⟨bytes.toArray⟩).map fun text =>
    (Json.parse? text).bind Configuration.ofJson?

/-- The configuration in the configured file, if one is given. -/
def loadConfiguration (files : FileSystem m) (settings : Settings) :
    ExceptT Failure m Configuration :=
  match settings.configuration with
  | none => return .complete
  | some path => do
    match ← (files.read path : m _) with
    | .error _ => throw (.configurationUnreadable path)
    | .ok bytes =>
      match configuration? bytes with
      | none => throw (.configurationUnreadable path)
      | some none => throw (.configurationInvalid path)
      | some (some configuration) => return configuration

/-- Do what is asked for, and answer with what is to be printed. -/
def execute (files : FileSystem m) (settings : Settings) (request : Request) :
    ExceptT Failure m String := do
  let image ← loadImage files settings
  let configuration ← loadConfiguration files settings
  match request with
  | .sections => return sectionsText image
  | .range r =>
    let text ← rangeText image configuration.features r
    match r.out with
    | none => return text
    | some path =>
      ExceptT.mk do return (← files.write path text).mapError .file
      return ""

/-- How a run ends. -/
structure Outcome where
  exitCode : UInt8
  /-- What is printed. -/
  output : String
  /-- Why the run failed. -/
  complaint : Option String

/-- The name and version of the program. -/
def versionText : String := "tricore-disasm 0.1.0\n"

/-- Run the disassembler with the given arguments. Arguments that are not understood end the run
before any file is touched. -/
def run (files : FileSystem m) (args : List String) : m Outcome := do
  match Invocation.ofArguments args with
  | .refused => return ⟨2, "", none⟩
  | .help => return ⟨0, "", none⟩
  | .version => return ⟨0, versionText, none⟩
  | .run settings request =>
    match ← (execute files settings request).run with
    | .ok output => return ⟨0, output, none⟩
    | .error failure => return ⟨1, "", some failure.message⟩

end TriCore.Command
