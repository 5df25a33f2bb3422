/-!
# Scanning arguments

The arguments of a command are options with a value, flags without one, and positional arguments.
An option takes its value from behind an equals sign or from the argument that follows, which may
not begin with a dash unless it is a single one. Two dashes alone make all that follows
positional. Where a command has subcommands, the name of one ends the scan and leaves the rest to
it.

What the arguments mean is said by a grammar, whose handlers record them in a state of their own and
refuse what does not fit. A request for help or for the version ends the scan, and so does a
refusal; whichever comes first counts. Only a value that is an argument of its own is looked at
late, when the next argument is taken up and is not the name of a subcommand. A subcommand that is
asked for help thus gives it in spite of a bad value right before its name.

## Main definitions

* `Command.Grammar` : the arguments that a command understands.
* `Command.Scanned`, `Command.scan` : the outcome of a scan.
-/

namespace TriCore.Command

/-- The arguments that a command understands. Each handler refuses by answering nothing. -/
structure Grammar (σ : Type) where
  /-- The options that take a value, with their dashes. -/
  options : List String
  setOption : (name value : String) → σ → Option σ
  /-- A flag with its dashes, if the command has it. -/
  setFlag : (name : String) → σ → Option σ
  /-- Whether there may be one more positional argument. -/
  hasRoom : σ → Bool
  addPositional : (value : String) → σ → Option σ
  subcommands : List String
  /-- Whether the command tells its version. -/
  tellsVersion : Bool

/-- The outcome of a scan. -/
inductive Scanned (σ : Type)
  | refused
  | help
  | version
  /-- All arguments were recorded. -/
  | finished (state : σ)
  /-- A subcommand follows, with the rest of the arguments. There is no state if the value right
  before it is refused. -/
  | subcommand (state : Option σ) (name : String) (rest : List String)

variable {σ : Type}

/-- An argument that cannot be the value of the option before it. -/
def isDashed (arg : String) : Bool :=
  match arg.toList with
  | '-' :: _ :: _ => true
  | _ => false

/-- The name of an option, and the value behind the equals sign if there is one. -/
def splitOption (arg : String) : String × Option String :=
  let found := arg.toList.span (· != '=')
  (String.ofList found.1, found.2.tail?.map String.ofList)

/-- All of the arguments are positional. -/
def scanPositional (g : Grammar σ) : List String → σ → Scanned σ
  | [], s => .finished s
  | arg :: rest, s =>
    if g.hasRoom s then
      match g.addPositional arg s with
      | some s' => scanPositional g rest s'
      | none => .refused
    else .refused

/-- The scan of the arguments behind the state `s`, which is missing if the last value is
refused. -/
def scan (g : Grammar σ) : List String → (s : Option σ) → Scanned σ
  | [], none => .refused
  | [], some s => .finished s
  | arg :: rest, s =>
    if g.subcommands.contains arg then .subcommand s arg rest
    else
      match s, arg.toList with
      | none, _ => .refused
      | some s, ['-', '-'] => scanPositional g rest s
      | some s, '-' :: '-' :: _ =>
        let (name, attached) := splitOption arg
        if g.options.contains name then
          match attached, rest with
          | some value, rest =>
            match g.setOption name value s with
            | some s' => scan g rest (some s')
            | none => .refused
          | none, value :: rest =>
            if isDashed value then .refused else scan g rest (g.setOption name value s)
          | none, [] => .refused
        else if attached.isSome then .refused
        else if name = "--help" then .help
        else if name = "--version" && g.tellsVersion then .version
        else
          match g.setFlag name s with
          | some s' => scan g rest (some s')
          | none => .refused
      | some _, '-' :: 'h' :: _ => .help
      | some _, '-' :: c :: _ => if c = 'V' && g.tellsVersion then .version else .refused
      | some s, _ => if g.hasRoom s then scan g rest (g.addPositional arg s) else .refused

end TriCore.Command
