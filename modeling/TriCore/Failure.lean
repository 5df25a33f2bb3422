import TriCore.Register
import TriCore.Text.Numeral
import TriCore.Word.Field

/-!
# Why an attempt fails

A decode attempt can be rejected for one of five causes, each local to the attempt: the caller may
try elsewhere or give up. Apart from these stands the fault: somebody asked for a field that no word
has. A fault says that a table is wrong and nothing about the code that is decoded, so it ends an
attempt for good, while a rejection lets further candidates be tried.

## Main definitions

* `DecodeError`, `DecodeError.message` : the causes of rejection and their wording.
* `Halt`, `Halt.message` : a rejection or a fault.
* `TableError`, `TableError.message` : why a decoder cannot be assembled from its tables.
-/

namespace TriCore

/-- Why a single decode attempt was rejected. -/
inductive DecodeError
  /-- The bytes end before a word of `needed` bytes does. -/
  | insufficientData (needed available : Nat)
  /-- No entry of the table recognises the word. -/
  | noTableMatch (bits : BitVec 32) (width : Width)
  /-- The class has no register for the encoded number `index`. -/
  | invalidRegisterIndex (cls : RegisterClass) (index : BitVec 32)
  /-- A register was to fill an operand slot that the opcode does not declare as one. -/
  | undeclaredRegister (slot : Nat)
  /-- The word's width or its width selector contradicts the format. -/
  | widthMismatch (expected : Width)
deriving DecidableEq

/-- The wording of a rejection. -/
def DecodeError.message : DecodeError → String
  | insufficientData needed available =>
    "insufficient data: need " ++ Text.decimal needed ++ " bytes, have " ++ Text.decimal available
  | noTableMatch bits width =>
    "no table match for " ++ width.name ++ " word " ++ Text.paddedHex 8 bits.toNat
  | invalidRegisterIndex cls index =>
    "register index " ++ Text.decimal index.toNat ++ " out of range for class " ++ cls.name
  | undeclaredRegister slot =>
    "operand slot " ++ Text.decimal slot ++ " is not declared as a register"
  | widthMismatch expected =>
    "width selector contradicts a " ++ expected.name ++ " format"

/-- Why a decode attempt stopped without an instruction. -/
inductive Halt
  /-- The word is not such an instruction. -/
  | rejected (error : DecodeError)
  /-- A field outside the word was to be read. -/
  | fault (field : Field)
deriving DecidableEq

/-- The wording of the reason why an attempt stopped. -/
def Halt.message : Halt → String
  | rejected error => error.message
  | fault field =>
    "field of " ++ Text.decimal field.width ++ " bits at " ++ Text.decimal field.offset ++
      " lies outside the word"

/-- A decoder was given a table of the width `found` for the words of width `role`. -/
structure TableError where
  role : Width
  found : Width
deriving DecidableEq

/-- The wording of a mismatched table. -/
def TableError.message (e : TableError) : String :=
  e.role.form ++ " table holds " ++ e.found.name ++ " words, expected " ++ e.role.name

end TriCore
