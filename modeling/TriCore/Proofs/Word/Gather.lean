import Mathlib.Algebra.Group.Nat.Defs
import Mathlib.Data.List.Pairwise
import TriCore.Word.Field

/-!
# Fields and pieces bit by bit

A field shows the bits it covers and no others, and so does an operand in pieces: two words hold the
same value there exactly if they agree on the covered bits. For pieces this needs that no two of
them are placed over each other in the operand and that none is placed above bit `31`.

## Main definitions

* `Field.Covers`, `Field.union` : the bits of a word that lie in a field, and in one of several.
* `Fragment.Fills` : the bits of the operand that a piece holds.
* `Fragment.WellPlaced` : no two pieces fill the same bit, and none fills a bit above the operand.

## Main results

* `Field.extract_eq_iff` : when a field has the same value in two words.
* `Fragment.getLsbD_gather` : the bits of an operand in pieces.
* `Fragment.toNat_gather_lt` : how large an operand in pieces can be.
* `Fragment.gather_eq_iff` : when an operand in pieces is the same in two words.
-/

namespace TriCore

/-- A value has no bit above the bits that it fits in. -/
theorem getLsbD_of_toNat_lt {value : BitVec 32} {width : Nat} (h : value.toNat < 2 ^ width)
    {j : Nat} (hj : width ≤ j) : value.getLsbD j = false :=
  Nat.testBit_lt_two_pow (Nat.lt_of_lt_of_le h (Nat.pow_le_pow_right (by decide) hj))

theorem getLsbD_foldl_or {ι : Type} (f : ι → BitVec 32) (j : Nat) (l : List ι)
    (value : BitVec 32) :
    (l.foldl (fun value a => value ||| f a) value).getLsbD j =
      (value.getLsbD j || l.any fun a => (f a).getLsbD j) := by
  induction l generalizing value with
  | nil => simp
  | cons a l ih => rw [List.foldl_cons, ih, BitVec.getLsbD_or, List.any_cons, Bool.or_assoc]

namespace Field

/-- The bit `i` of a word lies in the field. -/
def Covers (f : Field) (i : Nat) : Prop := f.offset ≤ i ∧ i < f.offset + f.width

instance (f : Field) (i : Nat) : Decidable (f.Covers i) := inferInstanceAs (Decidable (_ ∧ _))

/-- A field holds the same value in two words exactly if they agree on the bits it covers. -/
theorem extract_eq_iff {f : Field} (h : f.InRange) (bits₁ bits₂ : BitVec 32) :
    f.extract bits₁ = f.extract bits₂ ↔
      ∀ i, f.Covers i → bits₁.getLsbD i = bits₂.getLsbD i := by
  constructor
  · rintro heq i ⟨hle, hlt⟩
    have hbit := congrArg (fun value => value.getLsbD (i - f.offset)) heq
    have hwidth : i - f.offset < f.width := by omega
    have hword : i - f.offset < 32 := by
      have := h.2
      omega
    simpa only [getLsbD_extract, hword, hwidth, decide_true, Bool.true_and,
      Nat.add_sub_cancel' hle] using hbit
  · intro hagree
    refine BitVec.eq_of_getLsbD_eq fun j hj => ?_
    simp only [getLsbD_extract]
    by_cases hwidth : j < f.width
    · rw [hagree (f.offset + j) ⟨Nat.le_add_right .., by omega⟩]
    · simp only [hwidth, decide_false, Bool.and_false, Bool.false_and]

/-- Dropping the lowest bits of a field leaves a shorter field. -/
theorem extract_ushiftRight (f : Field) (bits : BitVec 32) (k : Nat) :
    f.extract bits >>> k = (Field.mk (f.offset + k) (f.width - k)).extract bits := by
  refine BitVec.eq_of_getLsbD_eq fun j hj => ?_
  have hwidth : k + j < f.width ↔ j < f.width - k := by omega
  simp only [BitVec.getLsbD_ushiftRight, getLsbD_extract, Nat.add_assoc, hj, hwidth, decide_true,
    Bool.true_and]
  by_cases hword : k + j < 32
  · simp only [hword, decide_true, Bool.true_and]
  · have hclear : bits.getLsbD (f.offset + (k + j)) = false :=
      BitVec.getLsbD_of_ge bits _ (by omega)
    simp only [hclear, Bool.and_false]

/-- A field that holds a value of its own width is read as that value. -/
theorem extract_eq_of_getLsbD {f : Field} {bits value : BitVec 32}
    (hvalue : value.toNat < 2 ^ f.width)
    (hbits : ∀ j < f.width, bits.getLsbD (f.offset + j) = value.getLsbD j) :
    f.extract bits = value := by
  refine BitVec.eq_of_getLsbD_eq fun j hj => ?_
  simp only [getLsbD_extract, hj, decide_true, Bool.true_and]
  by_cases hwidth : j < f.width
  · simp only [hwidth, decide_true, Bool.true_and, hbits j hwidth]
  · have high := getLsbD_of_toNat_lt hvalue (Nat.le_of_not_lt hwidth)
    simp only [hwidth, decide_false, Bool.false_and, high]

/-- The bits of several fields, all of them set. -/
def union (fields : List Field) : BitVec 32 :=
  fields.foldl (fun bits f => bits ||| f.mask) 0

theorem getLsbD_union {fields : List Field} {n : Nat} (hn : n < 32) :
    (union fields).getLsbD n = true ↔ ∃ f ∈ fields, f.Covers n := by
  have hzero : (0 : BitVec 32).getLsbD n = false := BitVec.getLsbD_zero
  simp only [union, getLsbD_foldl_or, hzero, Bool.false_or, List.any_eq_true, getLsbD_mask, hn,
    true_and, decide_eq_true_eq, Covers]

end Field

namespace Fragment

/-- The bit `j` of the operand is held by the piece. -/
def Fills (piece : Fragment) (j : Nat) : Prop :=
  piece.shift ≤ j ∧ j < piece.shift + piece.field.width

instance (piece : Fragment) (j : Nat) : Decidable (piece.Fills j) :=
  inferInstanceAs (Decidable (_ ∧ _))

/-- Two pieces hold different bits of the operand. -/
def Apart (p q : Fragment) : Prop :=
  p.shift + p.field.width ≤ q.shift ∨ q.shift + q.field.width ≤ p.shift

instance (p q : Fragment) : Decidable (p.Apart q) := inferInstanceAs (Decidable (_ ∨ _))

instance : Std.Symm Apart := ⟨fun _ _ h => h.symm⟩

/-- No two pieces hold the same bit of the operand, and none is placed above bit `31`. -/
def WellPlaced (pieces : List Fragment) : Prop :=
  pieces.Pairwise Apart ∧ ∀ piece ∈ pieces, piece.shift + piece.field.width ≤ 32

instance (pieces : List Fragment) : Decidable (WellPlaced pieces) :=
  inferInstanceAs (Decidable (_ ∧ _))

/-- A bit of an operand in pieces is set exactly if a piece that holds it finds it set. -/
theorem getLsbD_gather (pieces : List Fragment) (bits : BitVec 32) {j : Nat} (hj : j < 32) :
    (gather pieces bits).getLsbD j =
      pieces.any fun piece =>
        decide (piece.Fills j) && bits.getLsbD (piece.field.offset + (j - piece.shift)) := by
  rw [gather, getLsbD_foldl_or]
  have hzero : (0 : BitVec 32).getLsbD j = false := BitVec.getLsbD_zero
  rw [hzero, Bool.false_or]
  congr 1
  funext piece
  simp only [BitVec.getLsbD_shiftLeft, Field.getLsbD_extract, Fills]
  by_cases hle : piece.shift ≤ j <;> by_cases hlt : j < piece.shift + piece.field.width <;>
    grind

/-- An operand in pieces fits in the bits that its pieces end within. -/
theorem toNat_gather_lt {pieces : List Fragment} {width : Nat}
    (h : ∀ piece ∈ pieces, piece.shift + piece.field.width ≤ width) (bits : BitVec 32) :
    (gather pieces bits).toNat < 2 ^ width := by
  refine Nat.lt_pow_two_of_testBit _ fun j hj => ?_
  rw [BitVec.testBit_toNat]
  by_cases hword : j < 32
  · rw [getLsbD_gather pieces bits hword, List.any_eq_false]
    intro piece hmem
    have hfills : ¬piece.Fills j := fun hfills =>
      Nat.not_lt.mpr (Nat.le_trans (h piece hmem) hj) hfills.2
    simp only [hfills, decide_false, Bool.false_and, Bool.false_eq_true, not_false_eq_true]
  · exact BitVec.getLsbD_of_ge _ _ (Nat.le_of_not_lt hword)

/-- A bit that a piece holds is the bit of the word at the same place of the piece. -/
theorem getLsbD_gather_of_mem {pieces : List Fragment} (h : WellPlaced pieces)
    (bits : BitVec 32) {piece : Fragment} (hmem : piece ∈ pieces) {j : Nat}
    (hfills : piece.Fills j) :
    (gather pieces bits).getLsbD j = bits.getLsbD (piece.field.offset + (j - piece.shift)) := by
  have hj : j < 32 := Nat.lt_of_lt_of_le hfills.2 (h.2 piece hmem)
  rw [getLsbD_gather pieces bits hj, Bool.eq_iff_iff, List.any_eq_true]
  constructor
  · rintro ⟨other, hother, hbit⟩
    obtain ⟨hother_fills, hset⟩ := Bool.and_eq_true_iff.mp hbit
    have hsame : other = piece := by
      by_contra hne
      have hapart := h.1.forall hother hmem hne
      have hboth := of_decide_eq_true hother_fills
      simp only [Apart, Fills] at hapart hboth hfills
      omega
    rwa [hsame] at hset
  · exact fun hset => ⟨piece, hmem, by simp only [hfills, hset, decide_true, Bool.and_self]⟩

/-- An operand in pieces is the same in two words exactly if they agree on the fields of its
pieces. -/
theorem gather_eq_iff {pieces : List Fragment} (h : WellPlaced pieces) (bits₁ bits₂ : BitVec 32) :
    gather pieces bits₁ = gather pieces bits₂ ↔
      ∀ piece ∈ pieces, ∀ i, piece.field.Covers i → bits₁.getLsbD i = bits₂.getLsbD i := by
  constructor
  · rintro heq piece hmem i ⟨hle, hlt⟩
    have hfills : piece.Fills (piece.shift + (i - piece.field.offset)) := by
      constructor <;> omega
    have hbit := congrArg (fun value => value.getLsbD (piece.shift + (i - piece.field.offset))) heq
    simpa only [getLsbD_gather_of_mem h _ hmem hfills, Nat.add_sub_cancel_left,
      Nat.add_sub_cancel' hle] using hbit
  · intro hagree
    refine BitVec.eq_of_getLsbD_eq fun j hj => ?_
    rw [getLsbD_gather _ _ hj, getLsbD_gather _ _ hj, Bool.eq_iff_iff, List.any_eq_true,
      List.any_eq_true]
    refine exists_congr fun piece => and_congr_right fun hmem => ?_
    by_cases hfills : piece.Fills j
    · rw [hagree piece hmem _ ⟨Nat.le_add_right .., by have := hfills.1; have := hfills.2; omega⟩]
    · simp only [hfills, decide_false, Bool.false_and]

end Fragment

end TriCore
