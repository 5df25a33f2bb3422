/-!
# JSON documents

The trees that JSON texts denote, as far as this library needs to tell them apart. A string literal
may contain half of a surrogate pair; such a literal is allowed where nobody asks for its text, so a
string here is either a text or has none. Natural numbers are kept as numbers and all other numerals
as they are written. The entries of an object keep their order and may repeat a key.

## Main definitions

* `Json` : a document.
* `Json.string`, `Json.record` : documents built from texts.
-/

namespace TriCore

/-- A JSON document. -/
inductive Json
  | null
  | bool (b : Bool)
  | natural (n : Nat)
  /-- A number that is not written as a natural one. -/
  | numeral (literal : List Char)
  /-- A string; one that contains half of a surrogate pair has no text. -/
  | text (text : Option String)
  | array (items : List Json)
  | object (entries : List (Option String × Json))

namespace Json

/-- The document of a text. -/
def string (s : String) : Json := text (some s)

/-- The object with the given entries. -/
def record (entries : List (String × Json)) : Json :=
  object (entries.map fun entry => (some entry.1, entry.2))

/-- The text of a document that is a string and has one. -/
def string? : Json → Option String
  | text s => s
  | _ => none

/-- The name that a document stands for: a string, or an object with that one key and nothing in
it. -/
def name? : Json → Option String
  | text s => s
  | object [(key, null)] => key
  | _ => none

end Json

end TriCore
