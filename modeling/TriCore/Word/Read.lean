import TriCore.Failure

/-!
# Reading words

A word is read from the start of a byte string, lowest byte first, and its fields are read from the
word. A word is read whole or not at all. A field that does not lie inside thirty-two bits is a
fault.

## Main definitions

* `Word.fetch`, `Word.toBytes` : the word at the start of a byte string, and the bytes of a word.
* `Word.read`, `Word.gather` : the value of a field and of an operand in pieces.
-/

namespace TriCore.Word

/-! ### Bytes -/

/-- The word of width `width` at the start of `bytes`, lowest byte first. -/
def fetch (width : Width) (bytes : List UInt8) : Except Halt Word :=
  match width, bytes with
  | .short, b₀ :: b₁ :: _ => .ok (short (b₁.toBitVec ++ b₀.toBitVec))
  | .long, b₀ :: b₁ :: b₂ :: b₃ :: _ =>
    .ok (long (b₃.toBitVec ++ b₂.toBitVec ++ b₁.toBitVec ++ b₀.toBitVec))
  | _, _ => .error (.rejected (.insufficientData width.bytes bytes.length))

/-- The byte at position `i` of a word, counted from the lowest one. -/
def byte (w : Word) (i : Nat) : UInt8 := UInt8.ofBitVec (w.bits.extractLsb' (8 * i) 8)

/-- The bytes of a word, lowest byte first. -/
def toBytes (w : Word) : List UInt8 := (List.range w.width.bytes).map w.byte

/-! ### Fields -/

/-- The value of a field of the word. -/
def read (w : Word) (f : Field) : Except Halt (BitVec 32) :=
  if f.InRange then .ok (f.extract w.bits) else .error (.fault f)

/-- The operand that the word holds in the given pieces; the first piece outside the word is a
fault. -/
def gather (w : Word) (pieces : List Fragment) : Except Halt (BitVec 32) :=
  match pieces.find? (fun piece => !decide piece.field.InRange) with
  | some piece => .error (.fault piece.field)
  | none => .ok (Fragment.gather pieces w.bits)

@[simp] theorem length_toBytes (w : Word) : w.toBytes.length = w.width.bytes := by
  simp [toBytes]

/-- A word is read back from any byte string that begins with its bytes. -/
theorem fetch_toBytes_append (w : Word) (rest : List UInt8) :
    fetch w.width (w.toBytes ++ rest) = .ok w := by
  obtain ⟨width, bits, fits⟩ := w
  cases width with
  | short =>
    refine congrArg Except.ok (Word.ext rfl (BitVec.eq_of_getLsbD_eq fun i hi => ?_))
    have hlimit : bits.toNat < 2 ^ 16 := fits
    have high : 16 ≤ i → bits.getLsbD i = false := fun hle =>
      Nat.testBit_lt_two_pow (Nat.lt_of_lt_of_le hlimit (Nat.pow_le_pow_right (by decide) hle))
    simp only [short, byte, BitVec.getLsbD_setWidth, BitVec.getLsbD_append,
      BitVec.getLsbD_extractLsb', hi, decide_true, Bool.true_and]
    generalize bits.getLsbD = bit at high ⊢
    grind
  | long =>
    refine congrArg Except.ok (Word.ext rfl (BitVec.eq_of_getLsbD_eq fun i hi => ?_))
    simp only [long, byte, BitVec.getLsbD_append, BitVec.getLsbD_extractLsb']
    generalize bits.getLsbD = bit
    grind

theorem read_of_inRange {f : Field} (w : Word) (h : f.InRange) :
    w.read f = .ok (f.extract w.bits) := if_pos h

theorem gather_of_inRange {pieces : List Fragment} (w : Word)
    (h : ∀ piece ∈ pieces, piece.field.InRange) :
    w.gather pieces = .ok (Fragment.gather pieces w.bits) := by
  have : pieces.find? (fun piece => !decide piece.field.InRange) = none := by
    simpa [List.find?_eq_none] using h
  simp only [gather, this]

end TriCore.Word
