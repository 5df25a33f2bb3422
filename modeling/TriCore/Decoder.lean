import TriCore.Chart
import TriCore.Event
import TriCore.Format.Operands

/-!
# Decoders

A decoder recognises a word by the table of its width and reads the operands of each candidate
that the table offers. From bytes it first tries the short word and, if that is rejected, the long
word at the same place. The width selector in bit `0` belongs to both words, and every format
checks it, so at most one of the two can succeed.

## Main definitions

* `Decoder`, `Decoder.ofParts`, `Decoder.standard` : register file, descriptors, tables and features
  that belong together.
* `Decoder.assemble` : the instruction that a candidate makes of a word.
* `Decoder.decodeWord`, `Decoder.decode` : decoding a word, or the word at the start of a byte
  string.
* `Decoder.decodeWordLogged`, `Decoder.decodeLogged` : the same, together with the events.
-/

namespace TriCore

open Decision

/-- All that decoding depends on. The tables have the widths of their roles. -/
structure Decoder where
  registers : RegisterFile
  descriptors : DescriptorTable
  short : Table
  long : Table
  features : Features
  width_short : short.width = .short
  width_long : long.width = .long

namespace Decoder

/-! ### Assembly -/

/-- The decoder with the given parts, unless a table has the wrong width. -/
def ofParts (registers : RegisterFile) (descriptors : DescriptorTable) (short long : Table)
    (features : Features) : Except TableError Decoder :=
  if width_short : short.width = .short then
    if width_long : long.width = .long then
      .ok { registers, descriptors, short, long, features, width_short, width_long }
    else
      .error ⟨.long, long.width⟩
  else
    .error ⟨.short, short.width⟩

/-- The decoder with the architecture's registers, descriptors and tables. -/
def standard (features : Features) : Decoder where
  registers := .standard
  descriptors := .standard
  short := .short
  long := .long
  features := features
  width_short := rfl
  width_long := rfl

/-- The table for the words of a width. -/
def table (d : Decoder) : Width → Table
  | .short => d.short
  | .long => d.long

/-! ### Words -/

/-- The instruction that a candidate makes of a word. -/
def assemble (d : Decoder) (w : Word) (address : UInt64) (candidate : Candidate) :
    Except Halt Instruction :=
  let context := ⟨d.registers, d.descriptors.get candidate.opcode⟩
  let collected := candidate.format.decode context w (.start candidate.opcode)
  collected.result.map fun _ => collected.draft.finish candidate.format.width address

/-- The answer to an offer: the candidate's instruction. A final offer is reported before the
operands are read, and a tentative one when it is rejected. -/
def answer (d : Decoder) (w : Word) (address : UInt64) : Offer (List Event) Instruction
  | .final, candidate, log =>
    (d.assemble w address candidate, log ++ [.matched candidate w.bits])
  | .tentative, candidate, log =>
    match d.assemble w address candidate with
    | .error (.rejected error) =>
      (.error (.rejected error), log ++ [.candidateRejected candidate.opcode error])
    | result => (result, log)

/-- The instruction that a word encodes, with the events of the walk. -/
def decodeWordLogged (d : Decoder) (w : Word) (address : UInt64) :
    Logged (Except Halt Instruction) :=
  let walked := (d.table w.width).walk w d.features (d.answer w address) [.walking w]
  ⟨walked.1, walked.2⟩

/-- The instruction that a word encodes. The address is recorded and otherwise unused. -/
def decodeWord (d : Decoder) (w : Word) (address : UInt64) : Except Halt Instruction :=
  (d.decodeWordLogged w address).value

/-! ### Bytes -/

/-- The instruction at the start of a byte string, with the events of both walks. -/
def decodeLogged (d : Decoder) (bytes : List UInt8) (address : UInt64) :
    Logged (Except Halt Instruction) :=
  match Word.fetch .short bytes with
  | .error halt => ⟨.error halt, []⟩
  | .ok short =>
    let first := d.decodeWordLogged short address
    match first.value with
    | .error (.rejected error) =>
      let log := first.log ++ [.retrying address error]
      match Word.fetch .long bytes with
      | .error halt => ⟨.error halt, log⟩
      | .ok long =>
        let second := d.decodeWordLogged long address
        ⟨second.value, log ++ second.log⟩
    | _ => first

/-- The instruction at the start of a byte string. -/
def decode (d : Decoder) (bytes : List UInt8) (address : UInt64) : Except Halt Instruction :=
  (d.decodeLogged bytes address).value

end Decoder

end TriCore
