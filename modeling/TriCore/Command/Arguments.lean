import TriCore.Command.Scan
import TriCore.Text.Numeral

/-!
# The arguments of the disassembler

The disassembler loads a raw file and then either lists the segments of its image or decodes a
range of addresses. Options that say what is loaded stand before the name of the subcommand and
options that say how a range is shown behind it. No option may be given twice, and a file name may
not be empty. The bounds of a range are kept as texts: whether they are addresses is found out
only when the file has been loaded.

## Main definitions

* `Command.Settings` : what is loaded.
* `Command.Range`, `Command.Request` : what is done with it.
* `Command.Invocation`, `Command.Invocation.ofArguments` : what the arguments ask for.
-/

namespace TriCore.Command

/-! ### What is asked for -/

/-- What is loaded, and how the decoder is configured. -/
structure Settings where
  input : String
  base : UInt64
  skip : Nat
  limit : Option Nat
  configuration : Option String

/-- The form of a listing. -/
inductive ListingForm
  | text
  | json
deriving DecidableEq

/-- A range of addresses that is to be decoded, and how it is shown. -/
structure Range where
  start : String
  stop : String
  showBytes : Bool
  form : ListingForm
  /-- The file that receives the listing. -/
  out : Option String

/-- What is done with the image. -/
inductive Request
  | sections
  | range (range : Range)

/-- What the arguments ask for. -/
inductive Invocation
  | refused
  | help
  | version
  | run (settings : Settings) (request : Request)

/-! ### Arguments of the disassembler itself -/

/-- What is known of the settings while the arguments are scanned. -/
structure PartialSettings where
  input : Option String
  base : Option UInt64
  skip : Option Nat
  limit : Option Nat
  configuration : Option String

namespace PartialSettings

/-- Nothing is known. -/
def unknown : PartialSettings := ⟨none, none, none, none, none⟩

/-- The settings, if there is an input file. What else is not given takes its default. -/
def settings? (p : PartialSettings) : Option Settings :=
  p.input.map fun input =>
    { input
      base := p.base.getD 0
      skip := p.skip.getD 0
      limit := p.limit
      configuration := p.configuration }

end PartialSettings

/-- A value that is given for the first time. -/
def once {α : Type} (known : Option α) (value : Option α) : Option α :=
  if known.isSome then none else value

/-- The name of a file, which is not empty. -/
def fileName? (text : String) : Option String := if text.isEmpty then none else some text

/-- A natural number of sixty-four bits. -/
def count? (text : String) : Option Nat := (Text.readNumeral 10 UInt64.size text.toList).toOption

/-- The arguments of the disassembler before its subcommand. -/
def topGrammar : Grammar PartialSettings where
  options := ["--base", "--skip", "--len", "--config"]
  setOption name value p :=
    if name = "--base" then
      (once p.base ((count? value).map UInt64.ofNat)).map fun base => { p with base := some base }
    else if name = "--skip" then
      (once p.skip (count? value)).map fun skip => { p with skip := some skip }
    else if name = "--len" then
      (once p.limit (count? value)).map fun limit => { p with limit := some limit }
    else
      (once p.configuration (fileName? value)).map fun file =>
        { p with configuration := some file }
  setFlag _ _ := none
  hasRoom p := p.input.isNone
  addPositional value p := (fileName? value).map fun input => { p with input := some input }
  subcommands := ["sections", "range", "help"]
  tellsVersion := true

/-! ### Arguments of the subcommands -/

/-- The subcommand that lists segments has no arguments. -/
def sectionsGrammar : Grammar Unit where
  options := []
  setOption _ _ _ := none
  setFlag _ _ := none
  hasRoom _ := false
  addPositional _ _ := none
  subcommands := []
  tellsVersion := false

/-- What is known of a range while the arguments are scanned. -/
structure PartialRange where
  bounds : List String
  showBytes : Bool
  form : Option ListingForm
  out : Option String

/-- The range, if both of its bounds are known. -/
def PartialRange.range? (p : PartialRange) : Option Range :=
  match p.bounds with
  | [start, stop] =>
    some { start, stop, showBytes := p.showBytes, form := p.form.getD .text, out := p.out }
  | _ => none

/-- The form of a listing with the given name. -/
def listingForm? (name : String) : Option ListingForm :=
  if name = "text" then some .text else if name = "json" then some .json else none

/-- The arguments of the subcommand that decodes a range. -/
def rangeGrammar : Grammar PartialRange where
  options := ["--format", "--out"]
  setOption name value p :=
    if name = "--format" then
      (once p.form (listingForm? value)).map fun form => { p with form := some form }
    else
      (once p.out (fileName? value)).map fun file => { p with out := some file }
  setFlag name p :=
    if name = "--show-bytes" && !p.showBytes then some { p with showBytes := true } else none
  hasRoom p := p.bounds.length < 2
  addPositional value p := some { p with bounds := p.bounds ++ [value] }
  subcommands := []
  tellsVersion := false

/-! ### All arguments -/

/-- The arguments of a subcommand, of which `finish` makes what is asked for. -/
def ofSubcommand {σ : Type} (scanned : Scanned σ) (finish : σ → Option Invocation) : Invocation :=
  match scanned with
  | .finished state => (finish state).getD .refused
  | .help => .help
  | .version => .version
  | .refused | .subcommand .. => .refused

/-- Help can be asked for the disassembler or for one of its subcommands. -/
def ofHelp : List String → Invocation
  | [] => .help
  | [name] => if topGrammar.subcommands.contains name then .help else .refused
  | _ => .refused

/-- What the arguments ask for. -/
def Invocation.ofArguments (args : List String) : Invocation :=
  match scan topGrammar args (some .unknown) with
  | .refused | .finished _ => .refused
  | .help => .help
  | .version => .version
  | .subcommand p name rest =>
    let settings? := p.bind PartialSettings.settings?
    if name = "sections" then
      ofSubcommand (scan sectionsGrammar rest (some ())) fun _ =>
        settings?.map fun settings => .run settings .sections
    else if name = "range" then
      ofSubcommand (scan rangeGrammar rest (some ⟨[], false, none, none⟩)) fun r => do
        return .run (← settings?) (.range (← r.range?))
    else
      ofHelp rest

end TriCore.Command
