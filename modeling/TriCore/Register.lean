/-!
# Registers

Registers come in four classes. A data or address register is named by its number. An extended
register is a pair of data registers and an address pair is a pair of address registers; both are
encoded by the number of either half, so that the number is halved before it selects a register.

## Main definitions

* `RegisterClass`, `IndexTransform` : the four classes and how an encoded number selects a register.
* `Register` : the identifier of one register, across all classes.
* `OperandKind` : what an opcode declares for one operand.
-/

namespace TriCore

/-- The class of a register. -/
inductive RegisterClass
  /-- The data registers `D0`, …, `D15`. -/
  | data
  /-- The address registers `A0`, …, `A15`. -/
  | address
  /-- The extended registers, each a pair of data registers. -/
  | extended
  /-- The address pairs, each a pair of address registers. -/
  | addressPair
deriving DecidableEq

/-- How an encoded number becomes the position of a register in its class. -/
inductive IndexTransform
  | identity
  | halve
deriving DecidableEq

namespace IndexTransform

/-- The position that an encoded number selects. -/
def apply : IndexTransform → BitVec 32 → BitVec 32
  | identity, raw => raw
  | halve, raw => raw >>> 1

/-- The name of a transform. -/
def name : IndexTransform → String
  | identity => "Identity"
  | halve => "Halve"

theorem toNat_apply_halve (raw : BitVec 32) : (halve.apply raw).toNat = raw.toNat / 2 := by
  simp [apply, BitVec.toNat_ushiftRight, Nat.shiftRight_eq_div_pow]

end IndexTransform

namespace RegisterClass

/-- The four classes. -/
def all : List RegisterClass := [data, address, extended, addressPair]

/-- The name under which a class is listed. -/
def name : RegisterClass → String
  | data => "Data"
  | address => "Addr"
  | extended => "Ext"
  | addressPair => "PairAddr"

/-- A register that stands for a pair is encoded by the number of either half. -/
def transform : RegisterClass → IndexTransform
  | data | address => .identity
  | extended | addressPair => .halve

end RegisterClass

/-- The identifier of a register. No two classes share an identifier in the architecture's own
register file. -/
structure Register where
  id : UInt16
deriving DecidableEq

/-- What an opcode declares for one of its operands. -/
inductive OperandKind
  | register (cls : RegisterClass)
  | immediate
deriving DecidableEq

namespace OperandKind

/-- A data register. -/
abbrev data : OperandKind := .register .data

/-- An address register. -/
abbrev address : OperandKind := .register .address

/-- An extended register. -/
abbrev extended : OperandKind := .register .extended

/-- An address pair. -/
abbrev addressPair : OperandKind := .register .addressPair

end OperandKind

end TriCore
