import TriCore.Chart.Pattern
import TriCore.Instruction
import TriCore.Opcode.Descriptor
import TriCore.Proofs.Register.Position
import TriCore.Proofs.Word.Deposit

/-!
# Diagrams of the formats

The diagram of a format draws its operand fields in a word, from the lowest bit to the highest, and
names the value that each of them holds a piece of. The values are the numbers of registers and the
immediates of an instruction; most lie in one cell of the diagram, and a displacement or the number
of a bit may be spread over several. To encode an instruction is to put its constants and its values
into their cells. A bit that lies in no cell can have any value.

The diagram says where the values lie but not what an instruction makes of them. That is said by the
roles of a format, which list the values in the order of the operands, and by the operands that the
opcode declares.

## Main definitions

* `Role`, `Cell` : the values of an instruction, and the places of their pieces.
* `Format.diagram`, `Format.roles` : the operand fields of a format and the order of its operands.
* `Candidate.encode` : the word that encodes a candidate with given values.
* `Candidate.Admits`, `Candidate.operands` : the values that fit, and the operands they are.

## Main results

* `Candidate.getLsbD_encode_of_free` : the bits in no cell are those of the word encoded into.
-/

namespace TriCore

/-! ### Cells -/

/-- A value in an instruction. -/
inductive Role
  /-- The number of the first source register. -/
  | first
  /-- The number of the second source register. -/
  | second
  /-- The number of the third source register. -/
  | third
  /-- The number of the destination register of a long form. -/
  | destination
  /-- A constant. -/
  | constant
  /-- A displacement, an offset or an address. -/
  | displacement
  /-- The position of a bit or of a bit field. -/
  | position
  /-- The position of the second of two bits. -/
  | otherPosition
  /-- The width of a bit field. -/
  | extent
  /-- The two bits that modify an operation, such as a scale. -/
  | modifier
deriving DecidableEq

/-- An operand field: a piece of a value. -/
structure Cell where
  role : Role
  piece : Fragment
deriving DecidableEq

/-- A value in one field. -/
def Role.cell (role : Role) (offset width : Nat) : Cell := ⟨role, .placed offset width 0⟩

/-- The bits of a value from `shift` on. -/
def Role.part (role : Role) (offset width shift : Nat) : Cell :=
  ⟨role, .placed offset width shift⟩

namespace Format

open Role

/-! ### Diagrams -/

/-- The operand fields of a format, from the lowest bit to the highest. The format `rlc` has a
source register only if the opcode declares three operands. -/
def diagram (f : Format) (d : Descriptor) : List Cell :=
  match f with
  | sb => [displacement.cell 8 8]
  | sc => [constant.cell 8 8]
  | sbr => [displacement.cell 8 4, second.cell 12 4]
  | sr | sys => [first.cell 8 4]
  | src => [first.cell 8 4, constant.cell 12 4]
  | srr | slr | ssr => [first.cell 8 4, second.cell 12 4]
  | slro | ssro => [first.cell 8 4, displacement.cell 12 4]
  | sro => [displacement.cell 8 4, second.cell 12 4]
  | srrs => [modifier.cell 6 2, first.cell 8 4, second.cell 12 4]
  | sbc => [displacement.cell 8 4, constant.cell 12 4]
  | sbrn => [displacement.cell 8 4, position.cell 12 4]
  | abs | absb =>
    [first.cell 8 4, displacement.part 12 4 14, displacement.part 16 6 0, displacement.part 22 4 10,
     displacement.part 28 4 6]
  | b => [displacement.part 8 8 16, displacement.part 16 16 0]
  | bo => [first.cell 8 4, second.cell 12 4, displacement.part 16 6 0, displacement.part 28 4 6]
  | bol =>
    [first.cell 8 4, second.cell 12 4, displacement.part 16 6 0, displacement.part 22 6 10,
     displacement.part 28 4 6]
  | rc => [first.cell 8 4, constant.cell 12 9, destination.cell 28 4]
  | rcpw =>
    [first.cell 8 4, constant.cell 12 4, extent.cell 16 5, position.cell 23 5,
     destination.cell 28 4]
  | rlc =>
    (if d.operands.length = 3 then [first.cell 8 4] else []) ++
      [constant.cell 12 16, destination.cell 28 4]
  | rr | rr1 => [first.cell 8 4, second.cell 12 4, modifier.cell 16 2, destination.cell 28 4]
  | rr2 => [first.cell 8 4, second.cell 12 4, destination.cell 28 4]
  | rrpw =>
    [first.cell 8 4, second.cell 12 4, extent.cell 16 5, position.cell 23 5,
     destination.cell 28 4]
  | rrr2 | rrrr => [first.cell 8 4, second.cell 12 4, third.cell 24 4, destination.cell 28 4]
  | rrr1 | rrr =>
    [first.cell 8 4, second.cell 12 4, modifier.cell 16 2, third.cell 24 4, destination.cell 28 4]
  | bit =>
    [first.cell 8 4, second.cell 12 4, position.cell 16 5, otherPosition.cell 23 5,
     destination.cell 28 4]
  | rcr => [first.cell 8 4, constant.cell 12 9, third.cell 24 4, destination.cell 28 4]
  | rrrw =>
    [first.cell 8 4, second.cell 12 4, extent.cell 16 5, third.cell 24 4, destination.cell 28 4]
  | rcrr => [first.cell 8 4, constant.cell 12 4, third.cell 24 4, destination.cell 28 4]
  | rcrw =>
    [first.cell 8 4, constant.cell 12 4, extent.cell 16 5, third.cell 24 4, destination.cell 28 4]
  | brr => [first.cell 8 4, second.cell 12 4, displacement.cell 16 15]
  | brc => [first.cell 8 4, constant.cell 12 4, displacement.cell 16 15]
  | brn => [position.part 7 1 4, first.cell 8 4, position.part 12 4 0, displacement.cell 16 15]

/-- The destination, twice if it is read as well. -/
def destinationRoles (d : Descriptor) : List Role :=
  if d.isTied then [destination, destination] else [destination]

/-- The values of a format in the order of its operands. In the formats `abs` and `rlc` the opcode
decides whether the register or the immediate comes first. -/
def roles (f : Format) (d : Descriptor) : List Role :=
  match f with
  | sb | b => [displacement]
  | sc => [constant]
  | sbr => [second, displacement]
  | sr => [first, first]
  | sys => [first]
  | src => [first, constant]
  | srr | slr => [first, second]
  | slro | ssro | absb => [first, displacement]
  | sro => [displacement, second]
  | srrs => [first, second, modifier]
  | sbc => [displacement, constant]
  | sbrn => [displacement, position]
  | ssr => [second, first]
  | abs =>
    if d.operand? 0 = some .immediate then [displacement, first] else [first, displacement]
  | bo | bol | brr => [first, second, displacement]
  | rc => destinationRoles d ++ [first, constant]
  | rcpw => [destination, first, constant, position, extent]
  | rlc =>
    if d.operand? 0 = some .immediate then
      [constant, destination]
    else
      destination :: (if d.operands.length = 3 then [first] else []) ++ [constant]
  | rr => destinationRoles d ++ [first, second, modifier]
  | rr1 => [destination, first, second, modifier]
  | rr2 => [destination, first, second]
  | rrpw => [destination, first, second, position, extent]
  | rrr2 | rrrr => [destination, first, second, third]
  | rrr1 | rrr => [destination, first, second, modifier, third]
  | bit => [destination, first, second, position, otherPosition]
  | rcr | rcrr => [destination, first, constant, third]
  | rrrw => [destination, first, second, extent, third]
  | rcrw => [destination, first, constant, extent, third]
  | brc => [first, constant, displacement]
  | brn => [first, position, displacement]

end Format

/-! ### Encoding -/

namespace Candidate

/-- The operand fields of a candidate. -/
def cells (c : Candidate) : List Cell := c.format.diagram c.opcode.descriptor

/-- The values of a candidate in the order of its operands. -/
def roles (c : Candidate) : List Role := c.format.roles c.opcode.descriptor

/-- The pieces of a value of the candidate. -/
def pieces (c : Candidate) (role : Role) : List Fragment :=
  (c.cells.filter (·.role = role)).map Cell.piece

/-- The number of bits of a value of the candidate. -/
def breadth (c : Candidate) (role : Role) : Nat := Fragment.totalWidth (c.pieces role)

/-- The constants by which a candidate is recognised, with their fields. -/
def constants (c : Candidate) : List (Field × BitVec 32) :=
  (((Chart.patterns c.format.width).find? (·.candidate = c)).map Chart.Pattern.fields).getD []

/-- The operands of a candidate: the kind that the opcode declares, and the value. -/
def slots (c : Candidate) : List (OperandKind × Role) := c.opcode.descriptor.operands.zip c.roles

/-- Each value fits in the bits that the candidate has for it. -/
def Admits (c : Candidate) (values : Role → BitVec 32) : Prop :=
  ∀ role ∈ c.roles, (values role).toNat < 2 ^ c.breadth role

/-- The contents of the operand fields. -/
def contents (c : Candidate) (values : Role → BitVec 32) : List (Field × BitVec 32) :=
  c.cells.map fun cell => (cell.piece.field, values cell.role >>> cell.piece.shift)

/-- The word that encodes the candidate with the given values. The bits that it has no use for are
those of `unused`. -/
def encode (c : Candidate) (values : Role → BitVec 32) (unused : BitVec 32) : Word :=
  .lowest c.format.width (Field.depositAll (c.constants ++ c.contents values) unused)

/-- The operand that a value is. A register of the class that the opcode declares has the identifier
that is as many behind the first one of the class as the value says, or half as many where registers
stand for pairs. An immediate has the value together with its number of bits. -/
def operand (c : Candidate) (values : Role → BitVec 32) : OperandKind × Role → Operand
  | (.register cls, role) => .register cls ⟨UInt16.ofNat (cls.firstId + cls.position (values role))⟩
  | (.immediate, role) => .immediate (values role) (UInt8.ofNat (c.breadth role))

/-- The operands that the values are, in order. -/
def operands (c : Candidate) (values : Role → BitVec 32) : List Operand :=
  c.slots.map (c.operand values)

@[simp] theorem width_encode (c : Candidate) (values : Role → BitVec 32) (unused : BitVec 32) :
    (c.encode values unused).width = c.format.width := Word.width_lowest _ _

/-- A bit that lies in no cell and holds no constant is not changed. -/
theorem getLsbD_encode_of_free {c : Candidate} {i : Nat} (hi : i < c.format.width.bits)
    (hconstants : ∀ test ∈ c.constants, ¬test.1.Covers i)
    (hcells : ∀ cell ∈ c.cells, ¬cell.piece.field.Covers i) (values : Role → BitVec 32)
    (unused : BitVec 32) : (c.encode values unused).bits.getLsbD i = unused.getLsbD i := by
  have hfree : ∀ content ∈ c.constants ++ c.contents values, ¬content.1.Covers i := by
    intro content hcontent
    rcases List.mem_append.mp hcontent with h | h
    · exact hconstants content h
    · obtain ⟨cell, hcell, rfl⟩ := List.mem_map.mp h
      exact hcells cell hcell
  rw [encode, Word.getLsbD_lowest _ hi,
    Field.getLsbD_depositAll_of_free (Nat.lt_of_lt_of_le hi c.format.width.bits_le) hfree]

end Candidate

end TriCore
