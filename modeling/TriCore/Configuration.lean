import TriCore.Features.Text
import TriCore.Json
import TriCore.Register
import TriCore.Word

/-!
# Configuration

How a decoder is configured, and the JSON form of the configuration and of the small types of this
library. A configuration is an object of which only the key `features` counts, or an array of its
values in order. What is missing is configured with everything, so that a configuration without
features recognises every revision, which is not the same as one whose set of features is empty.

## Main definitions

* `Configuration`, `Configuration.ofJson?`, `Configuration.toJson`.
* `Width.ofJson?`, `RegisterClass.ofJson?`, `Register.ofJson?`, `Features.ofJson?`.
-/

namespace TriCore

/-! ### Small types -/

/-- The width with the given name. -/
def Width.ofJson? (j : Json) : Option Width :=
  j.name?.bind fun name => Width.all.find? (·.name == name)

/-- The register class with the given name. -/
def RegisterClass.ofJson? (j : Json) : Option RegisterClass :=
  j.name?.bind fun name => RegisterClass.all.find? (·.name == name)

/-- The register with the given identifier, a natural number below `2 ^ 16`. -/
def Register.ofJson? : Json → Option Register
  | .natural n => if n < UInt16.size then some ⟨UInt16.ofNat n⟩ else none
  | _ => none

/-- The feature set with the given text. -/
def Features.ofJson? (j : Json) : Option Features := j.string?.bind Features.ofText?

/-- The JSON form of a feature set. -/
def Features.toJson (set : Features) : Json := .string set.text

/-! ### Configurations -/

/-- How a decoder is configured. -/
structure Configuration where
  features : Features
deriving DecidableEq

namespace Configuration

/-- The configuration that recognises every revision. -/
def complete : Configuration := ⟨.all⟩

/-- The configuration that the entries of an object add to what is known so far. Other keys are
passed over if they are texts; a key may not be given twice. -/
def ofEntries? : (features : Option Features) → List (Option String × Json) →
    Option Configuration
  | known, [] => some ⟨known.getD .all⟩
  | _, (none, _) :: _ => none
  | known, (some key, value) :: entries =>
    if key = "features" then
      match known with
      | some _ => none
      | none => (Features.ofJson? value).bind fun set => ofEntries? (some set) entries
    else
      ofEntries? known entries

/-- The configuration that a document denotes. -/
def ofJson? : Json → Option Configuration
  | .object entries => ofEntries? none entries
  | .array [] => some complete
  | .array [value] => (Features.ofJson? value).map Configuration.mk
  | _ => none

/-- The JSON form of a configuration. -/
def toJson (c : Configuration) : Json := .record [("features", c.features.toJson)]

end Configuration

end TriCore
