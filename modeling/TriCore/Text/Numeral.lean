/-!
# Numerals

How numbers are written and read. Numbers are written in decimal, in lower-case hexadecimal, or in
hexadecimal with zeros in front. A number is read in a given base and has to stay below a limit; a
plus sign may stand before the digits.

## Main definitions

* `Text.decimal`, `Text.hex`, `Text.paddedHex`, `Text.hexByte` : the written forms.
* `Text.NumeralError`, `Text.NumeralError.message` : why a text is no number.
* `Text.readNumeral` : the number that a text denotes.
-/

namespace TriCore.Text

/-! ### Writing -/

/-- A number in decimal. -/
def decimal (n : Nat) : String := String.ofList (Nat.toDigits 10 n)

/-- The digits of a number in lower-case hexadecimal. -/
def hexDigits (n : Nat) : List Char := Nat.toDigits 16 n

/-- The digits of a number with zeros in front, so that there are at least `width` of them. -/
def paddedDigits (width : Nat) (n : Nat) : List Char :=
  List.replicate (width - (hexDigits n).length) '0' ++ hexDigits n

/-- A number in hexadecimal, marked as such. -/
def hex (n : Nat) : String := "0x" ++ String.ofList (hexDigits n)

/-- A number in hexadecimal with at least `width` digits, marked as such. -/
def paddedHex (width : Nat) (n : Nat) : String := "0x" ++ String.ofList (paddedDigits width n)

/-- A byte as two hexadecimal digits. -/
def hexByte (b : UInt8) : String := String.ofList (paddedDigits 2 b.toNat)

/-! ### Reading -/

/-- Why a text is not a number within the limit. -/
inductive NumeralError
  /-- There is nothing to read. -/
  | empty
  /-- A character is not a digit of the base, or a sign stands alone. -/
  | invalidDigit
  /-- The digits read so far reach the limit. -/
  | tooLarge
deriving DecidableEq

/-- The wording of a number that cannot be read. -/
def NumeralError.message : NumeralError → String
  | empty => "cannot parse integer from empty string"
  | invalidDigit => "invalid digit found in string"
  | tooLarge => "number too large to fit in target type"

/-- The value of a letter or figure as a digit, up to `35`. -/
def digitValue? (c : Char) : Option Nat :=
  if '0' ≤ c ∧ c ≤ '9' then some (c.toNat - '0'.toNat)
  else if 'a' ≤ c ∧ c ≤ 'z' then some (c.toNat - 'a'.toNat + 10)
  else if 'A' ≤ c ∧ c ≤ 'Z' then some (c.toNat - 'A'.toNat + 10)
  else none

/-- The value of a character as a digit of the base. -/
def digit? (base : Nat) (c : Char) : Option Nat := (digitValue? c).filter (· < base)

/-- The number whose digits so far denote `value` and which goes on with the given characters. -/
def readDigits (base limit : Nat) : (value : Nat) → List Char → Except NumeralError Nat
  | value, [] => .ok value
  | value, c :: cs =>
    match digit? base c with
    | none => .error .invalidDigit
    | some d =>
      let next := value * base + d
      if next < limit then readDigits base limit next cs else .error .tooLarge

/-- The number that a text denotes: digits of the base, with a plus sign before them or none. The
number has to be below `limit`. -/
def readNumeral (base limit : Nat) : List Char → Except NumeralError Nat
  | [] => .error .empty
  | ['+'] => .error .invalidDigit
  | '+' :: cs => readDigits base limit 0 cs
  | cs => readDigits base limit 0 cs

end TriCore.Text
