import TriCore.Json
import TriCore.Text.Numeral

/-!
# Writing JSON

A document is written either on one line without any blanks or with every item and entry on a line
of its own, indented by two blanks for each level. Empty arrays and objects stay on one line. In
strings the quotation mark, the backslash and the control characters are escaped, with short forms
where there are any, and all else stands as it is.

## Main definitions

* `Json.Style` : on one line or spread out.
* `Json.write`, `Json.compact`, `Json.pretty` : the written form of a document.
-/

namespace TriCore.Json

/-! ### Strings -/

/-- A character within a string literal. -/
def escape (c : Char) : List Char :=
  match c with
  | '"' => ['\\', '"']
  | '\\' => ['\\', '\\']
  | '\x08' => ['\\', 'b']
  | '\x0c' => ['\\', 'f']
  | '\n' => ['\\', 'n']
  | '\r' => ['\\', 'r']
  | '\t' => ['\\', 't']
  | c => if c.toNat < 0x20 then '\\' :: 'u' :: '0' :: '0' :: Text.paddedDigits 2 c.toNat else [c]

/-- A string literal. The literal of a string without a text is half of a surrogate pair. -/
def literal : Option String → List Char
  | some s => '"' :: (s.toList.flatMap escape ++ ['"'])
  | none => ['"', '\\', 'u', 'd', '8', '0', '0', '"']

/-! ### Documents -/

/-- Whether a document is written on one line or spread over several. -/
inductive Style
  | compact
  | pretty
deriving DecidableEq

/-- What stands before each part of a container at the given depth, and before its end. -/
def Style.lineBreak : Style → (depth : Nat) → List Char
  | compact, _ => []
  | pretty, depth => '\n' :: List.replicate (2 * depth) ' '

/-- What stands between a key and its value. -/
def Style.colon : Style → List Char
  | compact => [':']
  | pretty => [':', ' ']

mutual

/-- A document at the given depth. -/
def write (style : Style) (depth : Nat) : Json → List Char
  | null => ['n', 'u', 'l', 'l']
  | bool true => ['t', 'r', 'u', 'e']
  | bool false => ['f', 'a', 'l', 's', 'e']
  | natural n => Nat.toDigits 10 n
  | numeral literal => literal
  | text s => literal s
  | array [] => ['[', ']']
  | array (item :: items) =>
    '[' :: (style.lineBreak (depth + 1) ++ write style (depth + 1) item ++
      writeItems style depth items ++ style.lineBreak depth ++ [']'])
  | object [] => ['{', '}']
  | object ((key, value) :: entries) =>
    '{' :: (style.lineBreak (depth + 1) ++ literal key ++ style.colon ++
      write style (depth + 1) value ++ writeEntries style depth entries ++
      style.lineBreak depth ++ ['}'])

/-- The items behind the first one of an array. -/
def writeItems (style : Style) (depth : Nat) : List Json → List Char
  | [] => []
  | item :: items =>
    ',' :: (style.lineBreak (depth + 1) ++ write style (depth + 1) item ++
      writeItems style depth items)

/-- The entries behind the first one of an object. -/
def writeEntries (style : Style) (depth : Nat) : List (Option String × Json) → List Char
  | [] => []
  | (key, value) :: entries =>
    ',' :: (style.lineBreak (depth + 1) ++ literal key ++ style.colon ++
      write style (depth + 1) value ++ writeEntries style depth entries)

end

/-- A document on one line. -/
def compact (j : Json) : String := String.ofList (write .compact 0 j)

/-- A document spread over several lines. -/
def pretty (j : Json) : String := String.ofList (write .pretty 0 j)

end TriCore.Json
