import TriCore.Json.Writer
import TriCore.Sweep
import TriCore.Text.Blank

/-!
# Listings

The attempts of a sweep are listed one by one, as lines of text or as JSON records. There is no
assembly language: a register is listed by its class and identifier and an immediate by its value
and the width of its field. What is listed of an attempt is an entry. Where bytes are to be shown,
an attempt shows those that it used up.

## Main definitions

* `Operand.text`, `Listing.line` : the text form.
* `Operand.toJson`, `Instruction.toJson`, `Listing.record` : the JSON form.
* `Listing.Entry`, `Listing.text`, `Listing.document` : what is listed of an attempt, and the two
  forms of a whole listing.
* `Listing.chunk`, `Listing.entry` : the bytes of an attempt, and its entry.
* `Listing.lines`, `Listing.records` : the listing of a whole sweep.
-/

namespace TriCore

/-! ### Text -/

/-- An operand in a line of text. -/
def Operand.text : Operand → String
  | register cls r => cls.name ++ "#" ++ Text.decimal r.id.toNat
  | immediate value bits => Text.hex value.toNat ++ ":" ++ Text.decimal bits.toNat

namespace Listing

/-- The outcome of an attempt in a line of text. -/
def outcome : Except Halt Instruction → String
  | .ok i => i.opcode.name ++ " " ++ ", ".intercalate (i.operands.map Operand.text)
  | .error halt => "<" ++ halt.message ++ ">"

/-- The bytes of an attempt in a line of text. -/
def byteColumn (bytes : List UInt8) : String :=
  String.join (bytes.map fun b => Text.hexByte b ++ " ") ++ " "

/-- One attempt as a line of text, without blanks at its end: the address, the bytes if they are to
be shown, and the outcome. -/
def line (address : UInt64) (bytes : Option (List UInt8)) (result : Except Halt Instruction) :
    String :=
  let whole := Text.paddedHex 8 address.toNat ++ ": " ++
    (bytes.map byteColumn).getD "" ++ outcome result
  String.ofList (Text.trimEnd whole.toList)

end Listing

/-! ### JSON -/

/-- The JSON form of an operand. -/
def Operand.toJson : Operand → Json
  | register cls r =>
    .record [("kind", .string "reg"), ("class", .string cls.name),
      ("reg", .natural r.id.toNat)]
  | immediate value bits =>
    .record [("kind", .string "imm"), ("value", .natural value.toNat),
      ("bits", .natural bits.toNat)]

/-- The JSON form of an instruction. -/
def Instruction.toJson (i : Instruction) : Json :=
  .record [("opcode", .string i.opcode.name), ("operands", .array (i.operands.map Operand.toJson)),
    ("width", .string i.width.name), ("address", .natural i.address.toNat)]

namespace Listing

/-- The entry for the outcome of an attempt. -/
def outcomeEntry : Except Halt Instruction → String × Json
  | .ok i => ("instruction", i.toJson)
  | .error halt => ("error", .string halt.message)

/-- The entry for the bytes of an attempt: pairs of digits separated by blanks. -/
def byteEntry (bytes : List UInt8) : String × Json :=
  ("bytes", .string (" ".intercalate (bytes.map Text.hexByte)))

/-- One attempt as a JSON record: the address, the bytes if they are to be shown, and the
outcome. -/
def record (address : UInt64) (bytes : Option (List UInt8)) (result : Except Halt Instruction) :
    Json :=
  .record (("address", .natural address.toNat) ::
    ((bytes.map byteEntry).toList ++ [outcomeEntry result]))

/-! ### Entries -/

/-- What is listed of an attempt: its address, its bytes if they are to be shown, and its
outcome. -/
structure Entry where
  address : UInt64
  bytes : Option (List UInt8)
  result : Except Halt Instruction

/-- An entry as a line of text. -/
def Entry.line (e : Entry) : String := Listing.line e.address e.bytes e.result

/-- An entry as a JSON record. -/
def Entry.record (e : Entry) : Json := Listing.record e.address e.bytes e.result

/-- The lines of some entries, each with its end. -/
def text (entries : List Entry) : String := String.join (entries.map fun e => e.line ++ "\n")

/-- The array of the records of some entries. -/
def document (entries : List Entry) : Json := .array (entries.map Entry.record)

/-! ### Whole sweeps -/

/-- The bytes of a buffer that an attempt used up. -/
def chunk (buffer : List UInt8) (a : Attempt) : List UInt8 := (buffer.drop a.offset).take a.step

/-- The entry of an attempt over a buffer. -/
def entry (showBytes : Bool) (buffer : List UInt8) (a : Attempt) : Entry :=
  ⟨a.address, if showBytes then some (chunk buffer a) else none, a.result⟩

/-- The attempts over a buffer as lines of text. -/
def lines (showBytes : Bool) (buffer : List UInt8) (attempts : List Attempt) : List String :=
  attempts.map fun a => (entry showBytes buffer a).line

/-- The attempts over a buffer as an array of records. -/
def records (showBytes : Bool) (buffer : List UInt8) (attempts : List Attempt) : Json :=
  document (attempts.map (entry showBytes buffer))

end Listing

end TriCore
