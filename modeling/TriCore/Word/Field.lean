import TriCore.Word

/-!
# Fields of a word

A field is a contiguous range of bits. An operand that is wider than any free range is stored in
several fragments, each of which says where in the operand its bits belong. Gathering collects the
fragments of a word into the operand, and scattering puts an operand back into its fragments. Fields
may be written down that do not lie inside a word; to read one is a fault of whoever wrote it down,
and `Field.InRange` is the condition under which it cannot happen.

## Main definitions

* `Field`, `Field.InRange` : a range of bits, and the condition under which it can be read.
* `Field.extract`, `Field.deposit` : reading and replacing the value of a field.
* `Fragment`, `Fragment.gather`, `Fragment.scatter`, `Fragment.totalWidth` : an operand stored in
  pieces.
* `Fragment.offset18`, `Fragment.displacement24`, `Fragment.offset10`, `Fragment.offset16`,
  `Fragment.bitNumber` : the operands that the architecture stores in pieces.
-/

namespace TriCore

/-! ### Contiguous fields -/

/-- The bits `offset, …, offset + width - 1` of a word. -/
structure Field where
  offset : Nat
  width : Nat
deriving DecidableEq

namespace Field

/-- A field can be read when it is not empty and ends within thirty-two bits. -/
def InRange (f : Field) : Prop := 0 < f.width ∧ f.offset + f.width ≤ 32

instance (f : Field) : Decidable f.InRange := inferInstanceAs (Decidable (_ ∧ _))

/-- The value of a field: its lowest bit becomes bit `0`. -/
def extract (f : Field) (bits : BitVec 32) : BitVec 32 :=
  (bits.extractLsb' f.offset f.width).setWidth 32

theorem getLsbD_extract (f : Field) (bits : BitVec 32) (i : Nat) :
    (f.extract bits).getLsbD i =
      (decide (i < 32) && decide (i < f.width) && bits.getLsbD (f.offset + i)) := by
  simp [extract, BitVec.getLsbD_setWidth, BitVec.getLsbD_extractLsb', Bool.and_assoc]

/-- The bits of a field, all of them set. -/
def mask (f : Field) : BitVec 32 := (BitVec.allOnes f.width).setWidth 32 <<< f.offset

/-- The word with a field replaced by the low bits of a value. -/
def deposit (f : Field) (value bits : BitVec 32) : BitVec 32 :=
  (bits &&& ~~~f.mask) ||| (value <<< f.offset &&& f.mask)

theorem getLsbD_mask (f : Field) (i : Nat) :
    f.mask.getLsbD i = decide (i < 32 ∧ f.offset ≤ i ∧ i < f.offset + f.width) := by
  simp only [mask, BitVec.getLsbD_shiftLeft, BitVec.getLsbD_setWidth, BitVec.getLsbD_allOnes]
  by_cases h : f.offset ≤ i <;> grind

/-- A field that was replaced holds the value, and every other bit is as before. -/
theorem getLsbD_deposit (f : Field) (value bits : BitVec 32) {i : Nat} (hi : i < 32) :
    (f.deposit value bits).getLsbD i =
      if f.offset ≤ i ∧ i < f.offset + f.width then value.getLsbD (i - f.offset)
      else bits.getLsbD i := by
  simp only [deposit, BitVec.getLsbD_or, BitVec.getLsbD_and, BitVec.getLsbD_not,
    BitVec.getLsbD_shiftLeft, getLsbD_mask]
  by_cases h : f.offset ≤ i ∧ i < f.offset + f.width <;> grind

end Field

/-! ### Fields in pieces -/

/-- One piece of an operand: the field that holds it and the place of its lowest bit within the
operand. -/
structure Fragment where
  field : Field
  shift : Nat
deriving DecidableEq

namespace Fragment

/-- The piece of `width` bits at `offset`, placed at bit `shift` of the operand. -/
def placed (offset width shift : Nat) : Fragment := ⟨⟨offset, width⟩, shift⟩

/-- An operand that is stored in one field. -/
def whole (offset width : Nat) : List Fragment := [⟨⟨offset, width⟩, 0⟩]

/-- The operand that a word holds in the given pieces. Bits that a piece sends above bit `31` are
lost. -/
def gather (pieces : List Fragment) (bits : BitVec 32) : BitVec 32 :=
  pieces.foldl (fun value piece => value ||| piece.field.extract bits <<< piece.shift) 0

/-- The word with the given pieces replaced by those of an operand, so that it holds the operand. -/
def scatter (pieces : List Fragment) (value bits : BitVec 32) : BitVec 32 :=
  pieces.foldl (fun word piece => piece.field.deposit (value >>> piece.shift) word) bits

/-- The number of bits that the pieces hold together. -/
def totalWidth : List Fragment → Nat
  | [] => 0
  | piece :: pieces => piece.field.width + totalWidth pieces

/-! ### The operands stored in pieces -/

/-- The eighteen bits of an absolute address. -/
def offset18 : List Fragment := [placed 16 6 0, placed 28 4 6, placed 22 4 10, placed 12 4 14]

/-- The twenty-four bits of a long branch displacement. -/
def displacement24 : List Fragment := [placed 16 16 0, placed 8 8 16]

/-- The ten bits of a displacement from a base register. -/
def offset10 : List Fragment := [placed 16 6 0, placed 28 4 6]

/-- The sixteen bits of a long displacement from a base register. -/
def offset16 : List Fragment := [placed 16 6 0, placed 28 4 6, placed 22 6 10]

/-- The five bits of the number of a tested bit; its highest bit is borrowed from the primary
opcode. -/
def bitNumber : List Fragment := [placed 12 4 0, placed 7 1 4]

end Fragment

end TriCore
