import TriCore.Opcode
import TriCore.Register

/-!
# Opcode descriptors

A descriptor declares the operands of an opcode: for each slot a register of some class or an
immediate, and whether the destination is also read, in which case the same register fills the first
two slots. Formats that serve several register classes ask the descriptor which one to use.

## Main definitions

* `Descriptor` : the operands of an opcode.
* `Opcode.descriptor` : the architecture's own descriptors.
* `DescriptorTable`, `DescriptorTable.get`, `DescriptorTable.insert` : descriptors by opcode, each
  in the slot of its opcode; an opcode without an entry declares no operands.
-/

namespace TriCore

/-! ### Descriptors -/

/-- The operands that an opcode declares. -/
structure Descriptor where
  /-- The kind of each operand slot. -/
  operands : List OperandKind
  /-- The destination is read and written, so that its register fills two slots. -/
  isTied : Bool
deriving DecidableEq

namespace Descriptor

/-- An opcode whose operands are all different fields of the word. -/
def plain (operands : List OperandKind) : Descriptor := ⟨operands, false⟩

/-- An opcode whose destination fills the first two slots. -/
def tied (operands : List OperandKind) : Descriptor := ⟨operands, true⟩

/-- No operands at all. -/
def empty : Descriptor := plain []

/-- What is declared for one slot. -/
def operand? (d : Descriptor) (slot : Nat) : Option OperandKind := d.operands[slot]?

end Descriptor

/-! ### The architecture's descriptors -/

namespace Opcode

/-- The operands of an opcode in the order in which they are listed. -/
def descriptor : Opcode → Descriptor
  | .jSb | .callSb | .jzSb | .jnzSb | .andSc | .orSc | .movSc | .bisrSc | .jB | .callB | .jaB
  | .jlB | .callaB | .jlaB =>
    .plain [.immediate]
  | .jeqSbr | .jneSbr | .jzSbr | .jnzSbr | .movSrc | .addSrc | .shSrc | .ldWSlro | .ldBuSlro
  | .stWSsro | .stBSsro | .ldWAbs | .ldBAbs | .ldBuAbs | .ldHAbs | .ldHuAbs | .stTAbsb | .movRlc
  | .movURlc | .movhRlc | .mfcrRlc =>
    .plain [.data, .immediate]
  | .notSr | .satBSr | .satBuSr | .satHSr | .satHuSr | .rsubSr | .movSrr | .addSrr | .subSrr
  | .andSrr | .orSrr | .xorSrr | .ldWSlr | .ldBuSlr =>
    .plain [.data, .data]
  | .movASrc | .addASrc | .ldAAbs | .leaAbs | .movhARlc =>
    .plain [.address, .immediate]
  | .movASrr | .stWSsr | .stBSsr =>
    .plain [.address, .data]
  | .movAaSrr | .addASrr | .stASsr =>
    .plain [.address, .address]
  | .movDSrr =>
    .plain [.data, .address]
  | .ldWSro | .ldBuSro | .stWAbs | .stBAbs | .stHAbs | .mtcrRlc =>
    .plain [.immediate, .data]
  | .addscASrrs | .ldAPos | .ldAPre | .ldABso | .stAPos | .stAPre | .stABso | .leaBo | .ldABol
  | .leaBol | .addihARlc =>
    .plain [.address, .address, .immediate]
  | .jeqSbc | .jneSbc | .jeqSbc2 | .jneSbc2 | .jzTSbrn | .jnzTSbrn =>
    .plain [.immediate, .immediate]
  | .ldDAbs =>
    .plain [.extended, .immediate]
  | .ldDaAbs =>
    .plain [.addressPair, .immediate]
  | .stDAbs =>
    .plain [.immediate, .extended]
  | .stAAbs =>
    .plain [.immediate, .address]
  | .stDaAbs =>
    .plain [.immediate, .addressPair]
  | .ldBPos | .ldWPos | .ldBPre | .ldWPre | .ldBBso | .ldBuBso | .ldHBso | .ldHuBso | .ldWBso
  | .stBPos | .stWPos | .stBPre | .stWPre | .stBBso | .stHBso | .stWBso | .ldWBol | .stWBol =>
    .plain [.data, .address, .immediate]
  | .ldDPos | .ldDPre | .ldDBso | .stDPos | .stDPre | .stDBso =>
    .plain [.extended, .address, .immediate]
  | .ldDaPos | .ldDaPre | .ldDaBso | .stDaPos | .stDaPre | .stDaBso =>
    .plain [.addressPair, .address, .immediate]
  | .ldBBrev | .ldWBrev | .ldBCirc | .ldWCirc | .stBBrev | .stWBrev | .stBCirc | .stWCirc =>
    .plain [.data, .addressPair, .immediate]
  | .ldDBrev | .ldDCirc | .stDBrev | .stDCirc =>
    .plain [.extended, .addressPair, .immediate]
  | .ldABrev | .ldACirc | .stABrev | .stACirc =>
    .plain [.address, .addressPair, .immediate]
  | .ldDaBrev | .ldDaCirc | .stDaBrev | .stDaCirc =>
    .plain [.addressPair, .addressPair, .immediate]
  | .addRc | .rsubRc | .eqRc | .andRc | .orRc | .xorRc | .addiRlc | .addihRlc | .jeqBrr | .jneBrr
  | .jltBrr | .jltUBrr | .jgeBrr | .jgeUBrr =>
    .plain [.data, .data, .immediate]
  | .andEqRc | .andNeRc | .andLtRc | .andLtURc | .andGeRc | .andGeURc | .orEqRc | .orNeRc
  | .orLtRc | .orLtURc | .orGeRc | .orGeURc | .xorEqRc | .xorNeRc | .xorLtRc | .xorLtURc
  | .xorGeRc | .xorGeURc =>
    .tied [.data, .data, .data, .immediate]
  | .insertRcpw =>
    .plain [.data, .data, .immediate, .immediate, .immediate]
  | .imaskRcpw =>
    .plain [.extended, .data, .immediate, .immediate, .immediate]
  | .addRr | .subRr | .eqRr | .movRr | .andRr | .orRr | .xorRr | .mulQRr1 | .mulHRr1 =>
    .plain [.data, .data, .data, .immediate]
  | .movAaRr =>
    .plain [.address, .data, .address, .immediate]
  | .addARr | .subARr =>
    .plain [.address, .address, .address, .immediate]
  | .movDRr =>
    .plain [.data, .data, .address, .immediate]
  | .movARr =>
    .plain [.address, .data, .data, .immediate]
  | .andEqRr | .andNeRr | .andLtRr | .andLtURr | .andGeRr | .andGeURr | .orEqRr | .orNeRr
  | .orLtRr | .orLtURr | .orGeRr | .orGeURr | .xorEqRr | .xorNeRr | .xorLtRr | .xorLtURr
  | .xorGeRr | .xorGeURr =>
    .tied [.data, .data, .data, .data, .immediate]
  | .mulRr2 | .mulURr2 =>
    .plain [.data, .data, .data]
  | .insertRrpw | .extrRrpw | .extrURrpw | .dextrRrpw | .andAndTBit | .andTBit | .orTBit
  | .nandTBit =>
    .plain [.data, .data, .data, .immediate, .immediate]
  | .restoreSys | .disableSys =>
    .plain [.data]
  | .maddRrr2 | .msubRrr2 | .extrRrrr | .extrURrrr | .dextrRrrr =>
    .plain [.data, .data, .data, .data]
  | .maddQRrr1 | .msubQRrr1 | .insertRrrw | .extrRrrw | .extrURrrw | .caddRrr | .selRrr
  | .selnRrr =>
    .plain [.data, .data, .data, .immediate, .data]
  | .maddRcr | .msubRcr | .caddRcr | .selRcr | .insertRcrr =>
    .plain [.data, .data, .immediate, .data]
  | .jeqBrc | .jneBrc | .jltBrc | .jltUBrc | .jgeBrc | .jgeUBrc | .jzTBrn | .jnzTBrn =>
    .plain [.data, .immediate, .immediate]
  | .insertRcrw =>
    .plain [.data, .data, .immediate, .immediate, .data]

end Opcode

/-! ### Tables of descriptors -/

/-- Descriptors by opcode. Each opcode has a slot of its own, at its position among all opcodes. The
row of slots ends where it was last grown to, and a slot within it may be empty. -/
structure DescriptorTable where
  slots : List (Option Descriptor)

namespace DescriptorTable

/-- The table without entries. -/
def empty : DescriptorTable := ⟨[]⟩

/-- The slots of a table with empty ones behind them, so that there is a slot at `position`. -/
def grownTo (slots : List (Option Descriptor)) (position : Nat) : List (Option Descriptor) :=
  slots ++ List.replicate (position + 1 - slots.length) none

/-- The table with the descriptor of one opcode added or replaced. -/
def insert (table : DescriptorTable) (o : Opcode) (descriptor : Descriptor) : DescriptorTable :=
  ⟨(grownTo table.slots o.index).set o.index (some descriptor)⟩

/-- The table with all of the given entries added in order. -/
def insertAll (table : DescriptorTable) (entries : List (Opcode × Descriptor)) : DescriptorTable :=
  entries.foldl (fun t entry => t.insert entry.1 entry.2) table

/-- The table of the given entries, of which a later one replaces an earlier one. -/
def ofList (entries : List (Opcode × Descriptor)) : DescriptorTable := empty.insertAll entries

/-- The architecture's descriptors. -/
def standard : DescriptorTable := ofList (Opcode.all.map fun o => (o, o.descriptor))

/-- The descriptor of an opcode; without an entry it declares no operands. -/
def get (table : DescriptorTable) (o : Opcode) : Descriptor :=
  table.slots[o.index]?.join.getD .empty

theorem lt_length_grownTo (slots : List (Option Descriptor)) (position : Nat) :
    position < (grownTo slots position).length := by
  simp only [grownTo, List.length_append, List.length_replicate]
  omega

/-- Growing a row of slots gives no opcode a descriptor. -/
theorem getElem?_grownTo (slots : List (Option Descriptor)) (position i : Nat) :
    (grownTo slots position)[i]?.join = slots[i]?.join := by
  by_cases h : i < slots.length
  · rw [grownTo, List.getElem?_append_left h]
  · rw [grownTo, List.getElem?_append_right (Nat.le_of_not_lt h),
      List.getElem?_eq_none (Nat.le_of_not_lt h), List.getElem?_replicate]
    split <;> rfl

@[simp] theorem get_empty (o : Opcode) : empty.get o = .empty := rfl

@[simp] theorem get_insert (table : DescriptorTable) (o o' : Opcode) (descriptor : Descriptor) :
    (table.insert o descriptor).get o' = if o' = o then descriptor else table.get o' := by
  unfold get insert
  by_cases h : o' = o
  · rw [if_pos h, h, List.getElem?_set_self (lt_length_grownTo table.slots o.index)]
    rfl
  · have hindex : o.index ≠ o'.index := fun heq => h (Opcode.index_injective heq).symm
    rw [if_neg h, List.getElem?_set_ne hindex, getElem?_grownTo]

/-- Descriptors that are inserted for a list of opcodes replace those of the table. -/
theorem get_insertAll_map (f : Opcode → Descriptor) (os : List Opcode) (table : DescriptorTable)
    (o : Opcode) :
    (table.insertAll (os.map fun o => (o, f o))).get o = if o ∈ os then f o else table.get o := by
  induction os generalizing table with
  | nil => rfl
  | cons o' os ih =>
    rw [List.map_cons, insertAll, List.foldl_cons, ← insertAll, ih, get_insert]
    by_cases h : o = o' <;> simp [h]

@[simp] theorem get_standard (o : Opcode) : standard.get o = o.descriptor := by
  rw [standard, ofList, get_insertAll_map, if_pos o.mem_all]

end DescriptorTable

end TriCore
