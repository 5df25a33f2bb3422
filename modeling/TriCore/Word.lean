/-!
# Instruction words

A TriCore instruction is encoded in one word of sixteen or of thirty-two bits. Bit `0` of the word
selects between the two sizes: it is clear in every short form and set in every long one. This file
defines the two widths and the words that fit them. The bits of a word are kept in a vector of
thirty-two bits whatever the width, together with the fact that they fit, so that both sizes share
one vocabulary of fields.

## Main definitions

* `Width`, `Width.limit` : the two sizes of an encoding, and the number of words of each.
* `Word` : the bits of one instruction, with the proof that they fit its width.
* `Word.ofBits?` : the word with given bits, if they fit.
* `Word.isLongForm` : the width selector, bit `0`.
-/

namespace TriCore

/-! ### Widths -/

/-- The size of an encoded instruction: `short` for sixteen bits, `long` for thirty-two. -/
inductive Width
  | short
  | long
deriving DecidableEq

namespace Width

/-- The widths, shortest first. -/
def all : List Width := [short, long]

/-- The number of bytes that a word of this width occupies. -/
def bytes : Width → Nat
  | short => 2
  | long => 4

/-- The number of bits in a word of this width. -/
def bits (w : Width) : Nat := 8 * w.bytes

/-- The number of words of this width, which is the least number that does not fit in one. -/
def limit : Width → Nat
  | short => 0x10000
  | long => 0x100000000

/-- The name under which a width is listed. -/
def name : Width → String
  | short => "W16"
  | long => "W32"

/-- The word that says which of the two forms a width belongs to. -/
def form : Width → String
  | short => "short"
  | long => "long"

theorem bytes_pos (w : Width) : 0 < w.bytes := by cases w <;> decide

theorem bits_le (w : Width) : w.bits ≤ 32 := by cases w <;> decide

end Width

/-! ### Words -/

/-- The bits of one instruction. Bits above the width are clear. -/
@[ext] structure Word where
  width : Width
  bits : BitVec 32
  fits : bits.toNat < width.limit
deriving DecidableEq

namespace Word

/-- The word of width `width` with the bits `bits`, or `none` if they do not fit. -/
def ofBits? (width : Width) (bits : BitVec 32) : Option Word :=
  if fits : bits.toNat < width.limit then some ⟨width, bits, fits⟩ else none

/-- The short word with the given sixteen bits. -/
def short (bits : BitVec 16) : Word where
  width := .short
  bits := bits.setWidth 32
  fits := by
    have h : bits.toNat % 4294967296 ≤ bits.toNat := Nat.mod_le ..
    have := bits.isLt
    simp only [BitVec.toNat_setWidth, Width.limit]
    omega

/-- The long word with the given thirty-two bits. -/
def long (bits : BitVec 32) : Word where
  width := .long
  bits := bits
  fits := bits.isLt

/-- The width selector: bit `0` of the first byte, set for long forms and clear for short ones. -/
def isLongForm (w : Word) : Bool := w.bits.getLsbD 0

@[simp] theorem width_short (bits : BitVec 16) : (short bits).width = .short := rfl

@[simp] theorem width_long (bits : BitVec 32) : (long bits).width = .long := rfl

@[simp] theorem bits_long (bits : BitVec 32) : (long bits).bits = bits := rfl

theorem ofBits?_eq_some_iff {width : Width} {bits : BitVec 32} {w : Word} :
    ofBits? width bits = some w ↔ w.width = width ∧ w.bits = bits := by
  unfold ofBits?
  split
  case isTrue h =>
    rw [Option.some.injEq, Word.ext_iff]
    exact ⟨fun h => ⟨h.1.symm, h.2.symm⟩, fun h => ⟨h.1.symm, h.2.symm⟩⟩
  case isFalse h =>
    refine ⟨fun h' => by simp at h', fun h' => ?_⟩
    obtain ⟨rfl, rfl⟩ := h'
    exact absurd w.fits h

end Word

end TriCore
