import TriCore.Json
import TriCore.Text.Numeral

/-!
# Reading JSON

A text is read as one document with blanks around it and nothing else. Blank are the space, the
tabulator, the line feed and the carriage return. Numerals have no leading zeros and a digit on both
sides of a point; control characters may not stand in strings.

Each function here reads from the front of a list of characters and returns what it read together
with the characters behind it. Documents nest, so the functions that read them count down an amount
that the length of the text bounds: a call either reads a character before it makes another call or
is made by one that did.

## Main definitions

* `Json.readLiteral` : a string literal, behind its opening quotation mark.
* `Json.readNumber` : a numeral.
* `Json.readValue` : a document.
* `Json.parse?` : the document that a whole text denotes.
-/

namespace TriCore.Json

/-! ### Strings -/

/-- A piece of a string literal: a character, or one half of a surrogate pair. -/
inductive Piece
  | char (c : Char)
  | high (n : Nat)
  | low (n : Nat)

/-- The piece that a code of four hexadecimal digits stands for. -/
def Piece.ofCode (n : Nat) : Piece :=
  if 0xD800 ≤ n ∧ n < 0xDC00 then high (n - 0xD800)
  else if 0xDC00 ≤ n ∧ n < 0xE000 then low (n - 0xDC00)
  else char (Char.ofNat n)

/-- The characters that pieces denote: the halves of a pair have to stand side by side. -/
def Piece.join : List Piece → Option (List Char)
  | [] => some []
  | char c :: rest => (join rest).map (c :: ·)
  | high h :: low l :: rest => (join rest).map (Char.ofNat (0x10000 + h * 0x400 + l) :: ·)
  | _ => none

/-- The character that an escape of one letter stands for. -/
def unescape : Char → Option Char
  | '"' => some '"'
  | '\\' => some '\\'
  | '/' => some '/'
  | 'b' => some '\x08'
  | 'f' => some '\x0c'
  | 'n' => some '\n'
  | 'r' => some '\r'
  | 't' => some '\t'
  | _ => none

/-- The pieces of a string literal up to its closing quotation mark. -/
def readPieces : List Char → Option (List Piece × List Char)
  | [] => none
  | '"' :: rest => some ([], rest)
  | '\\' :: 'u' :: a :: b :: c :: d :: rest => do
    let digits ← [a, b, c, d].mapM (Text.digit? 16)
    let (pieces, rest) ← readPieces rest
    return (.ofCode (digits.foldl (fun n digit => 16 * n + digit) 0) :: pieces, rest)
  | '\\' :: c :: rest => do
    let c ← unescape c
    let (pieces, rest) ← readPieces rest
    return (.char c :: pieces, rest)
  | c :: rest =>
    if c.toNat < 0x20 then none
    else do
      let (pieces, rest) ← readPieces rest
      return (.char c :: pieces, rest)

/-- A string literal, behind its opening quotation mark. -/
def readLiteral (cs : List Char) : Option (Option String × List Char) := do
  let (pieces, rest) ← readPieces cs
  return ((Piece.join pieces).map String.ofList, rest)

/-! ### Numerals -/

/-- One digit or more. -/
def readDigits (cs : List Char) : Option (List Char × List Char) :=
  match cs.span Char.isDigit with
  | ([], _) => none
  | found => some found

/-- The digits before the point: a zero alone or digits without a zero in front. -/
def readInteger : List Char → Option (List Char × List Char)
  | '0' :: rest => some (['0'], rest)
  | cs => readDigits cs

/-- A point with digits behind it, if there is one. -/
def readFraction : List Char → Option (List Char × List Char)
  | '.' :: rest => (readDigits rest).map fun found => ('.' :: found.1, found.2)
  | cs => some ([], cs)

/-- The digits of an exponent, with a sign or without. -/
def readSignedDigits : List Char → Option (List Char × List Char)
  | '+' :: rest => (readDigits rest).map fun found => ('+' :: found.1, found.2)
  | '-' :: rest => (readDigits rest).map fun found => ('-' :: found.1, found.2)
  | cs => readDigits cs

/-- An exponent, if there is one. -/
def readExponent : List Char → Option (List Char × List Char)
  | 'e' :: rest => (readSignedDigits rest).map fun found => ('e' :: found.1, found.2)
  | 'E' :: rest => (readSignedDigits rest).map fun found => ('E' :: found.1, found.2)
  | cs => some ([], cs)

/-- The digits before the point and what there is of a fraction and an exponent. -/
def readUnsigned (cs : List Char) : Option ((List Char × List Char) × List Char) := do
  let (integer, rest) ← readInteger cs
  let (fraction, rest) ← readFraction rest
  let (exponent, rest) ← readExponent rest
  return ((integer, fraction ++ exponent), rest)

/-- A number: natural if it consists of digits alone. -/
def readNumber : List Char → Option (Json × List Char)
  | '-' :: cs => do
    let ((integer, tail), rest) ← readUnsigned cs
    return (.numeral ('-' :: (integer ++ tail)), rest)
  | cs => do
    let ((integer, tail), rest) ← readUnsigned cs
    if tail.isEmpty then
      return (.natural (Nat.ofDigitChars 10 integer 0), rest)
    else
      return (.numeral (integer ++ tail), rest)

/-! ### Documents -/

/-- The blanks that may stand between the parts of a document. -/
def isGap (c : Char) : Bool := c == ' ' || c == '\t' || c == '\n' || c == '\r'

/-- The characters behind any blanks. -/
def skipGap (cs : List Char) : List Char := cs.dropWhile isGap

mutual

/-- A document, behind any blanks. -/
def readValue : (fuel : Nat) → List Char → Option (Json × List Char)
  | 0, _ => none
  | fuel + 1, cs =>
    match skipGap cs with
    | 'n' :: 'u' :: 'l' :: 'l' :: rest => some (.null, rest)
    | 't' :: 'r' :: 'u' :: 'e' :: rest => some (.bool true, rest)
    | 'f' :: 'a' :: 'l' :: 's' :: 'e' :: rest => some (.bool false, rest)
    | '"' :: rest => (readLiteral rest).map fun found => (.text found.1, found.2)
    | '[' :: rest =>
      match skipGap rest with
      | ']' :: rest => some (.array [], rest)
      | rest => (readItems fuel rest).map fun found => (.array found.1, found.2)
    | '{' :: rest =>
      match skipGap rest with
      | '}' :: rest => some (.object [], rest)
      | rest => (readEntries fuel rest).map fun found => (.object found.1, found.2)
    | cs => readNumber cs

/-- The items of an array that is not empty, up to its end. -/
def readItems : (fuel : Nat) → List Char → Option (List Json × List Char)
  | 0, _ => none
  | fuel + 1, cs => do
    let (item, rest) ← readValue fuel cs
    match skipGap rest with
    | ',' :: rest =>
      let (items, rest) ← readItems fuel rest
      return (item :: items, rest)
    | ']' :: rest => return ([item], rest)
    | _ => none

/-- The entries of an object that is not empty, up to its end. -/
def readEntries : (fuel : Nat) → List Char → Option (List (Option String × Json) × List Char)
  | 0, _ => none
  | fuel + 1, cs =>
    match skipGap cs with
    | '"' :: rest => do
      let (key, rest) ← readLiteral rest
      match skipGap rest with
      | ':' :: rest =>
        let (value, rest) ← readValue fuel rest
        match skipGap rest with
        | ',' :: rest =>
          let (entries, rest) ← readEntries fuel rest
          return ((key, value) :: entries, rest)
        | '}' :: rest => return ([(key, value)], rest)
        | _ => none
      | _ => none
    | _ => none

end

/-- The document that a whole text denotes. -/
def parse? (s : String) : Option Json := do
  let cs := s.toList
  let (value, rest) ← readValue (2 * cs.length + 2) cs
  if (skipGap rest).isEmpty then some value else none

end TriCore.Json
