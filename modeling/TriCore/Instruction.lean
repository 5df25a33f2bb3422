import TriCore.Opcode
import TriCore.Register
import TriCore.Word

/-!
# Instructions

A decoded instruction consists of its opcode, its operands in the order of the format, the width of
its encoding and the address it was decoded at. While a format collects operands, what has been
collected so far is a draft.

## Main definitions

* `Operand` : a register of some class or an immediate with the width of its field.
* `Instruction`, `Instruction.size` : a decoded instruction.
* `Draft` : an opcode with the operands collected so far.
-/

namespace TriCore

/-! ### Operands -/

/-- An operand of an instruction. -/
inductive Operand
  | register (cls : RegisterClass) (register : Register)
  /-- An unsigned value together with the number of bits that hold it in the word. -/
  | immediate (value : BitVec 32) (bits : UInt8)
deriving DecidableEq

namespace Operand

/-- The immediate `value`, held in `bits` bits of the word. Only the low eight bits of the count are
kept. -/
def ofField (value : BitVec 32) (bits : Nat) : Operand := immediate value (UInt8.ofNat bits)

/-- The register, if the operand is one. -/
def register? : Operand → Option Register
  | register _ r => some r
  | immediate .. => none

/-- The value, if the operand is an immediate. -/
def immediate? : Operand → Option (BitVec 32)
  | register .. => none
  | immediate value _ => some value

end Operand

/-! ### Instructions -/

/-- A decoded instruction. -/
structure Instruction where
  opcode : Opcode
  operands : List Operand
  width : Width
  address : UInt64
deriving DecidableEq

/-- The number of bytes of an instruction. -/
def Instruction.size (i : Instruction) : Nat := i.width.bytes

/-! ### Drafts -/

/-- An opcode with the operands that have been collected for it. -/
structure Draft where
  opcode : Opcode
  operands : List Operand
deriving DecidableEq

namespace Draft

/-- The draft of an opcode before any operand. -/
def start (o : Opcode) : Draft := ⟨o, []⟩

/-- The draft with further operands behind those it has. -/
def append (draft : Draft) (operands : List Operand) : Draft :=
  ⟨draft.opcode, draft.operands ++ operands⟩

/-- The operand collected last. -/
def last? (draft : Draft) : Option Operand := draft.operands.getLast?

/-- The instruction that a draft describes. -/
def finish (draft : Draft) (width : Width) (address : UInt64) : Instruction :=
  ⟨draft.opcode, draft.operands, width, address⟩

end Draft

end TriCore
