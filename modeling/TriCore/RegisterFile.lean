import TriCore.Failure

/-!
# Register files

A register file gives each class a bank of registers. An encoded number is resolved by the
transform of its class and then looked up in the bank of that class; no class has more than sixteen
registers in use, and a bank may have fewer.

## Main definitions

* `RegisterFile`, `RegisterFile.standard`, `RegisterFile.setBank` : the banks of the four classes.
* `RegisterFile.resolve` : the register that an encoded number names in a class.
* `RegisterFile.resolveSlot` : the same, for an operand whose class an opcode declares.
-/

namespace TriCore

/-- The registers of each class, in the order of their positions. -/
structure RegisterFile where
  bank : RegisterClass → List Register

namespace RegisterFile

/-- The last position that any class uses. -/
def lastPosition : Nat := 15

/-- Sixteen registers whose identifiers count up from `first`. -/
def consecutive (first : Nat) : List Register :=
  (List.range 16).map fun i => ⟨UInt16.ofNat (first + i)⟩

/-- The architecture's registers: sixteen of each class, with identifiers that count up through the
address, data, extended and paired address registers, starting at `1`. -/
def standard : RegisterFile where
  bank
    | .address => consecutive 1
    | .data => consecutive 17
    | .extended => consecutive 33
    | .addressPair => consecutive 49

/-- The register file with the bank of one class replaced. -/
def setBank (file : RegisterFile) (cls : RegisterClass) (registers : List Register) :
    RegisterFile where
  bank c := if c = cls then registers else file.bank c

/-- The register of class `cls` that the encoded number `raw` names. The error reports the number
as it was encoded. -/
def resolve (file : RegisterFile) (cls : RegisterClass) (raw : BitVec 32) :
    Except DecodeError Register :=
  let index := (cls.transform.apply raw).toNat
  if lastPosition < index then
    .error (.invalidRegisterIndex cls raw)
  else
    match (file.bank cls)[index]? with
    | some register => .ok register
    | none => .error (.invalidRegisterIndex cls raw)

/-- The register for operand slot `slot`, whose kind the opcode declares as `kind`. A slot that is
not declared as a register is an error whatever the number. -/
def resolveSlot (file : RegisterFile) (kind : Option OperandKind) (slot : Nat)
    (raw : BitVec 32) : Except DecodeError (RegisterClass × Register) :=
  match kind with
  | some (.register cls) => (file.resolve cls raw).map (cls, ·)
  | _ => .error (.undeclaredRegister slot)

@[simp] theorem bank_setBank (file : RegisterFile) (cls c : RegisterClass)
    (registers : List Register) :
    (file.setBank cls registers).bank c = if c = cls then registers else file.bank c := rfl

end RegisterFile

end TriCore
