import TriCore.Proofs.Word.Gather
import TriCore.Word

/-!
# Putting values into the fields of a word

Values are put into several fields of a word one after the other. If no two of the fields share a
bit, the order does not matter: every field holds its value in the end, and the bits that lie in no
field are as before. A word of a given width keeps only its lowest bits.

## Main definitions

* `Field.Apart`, `Fragment.Shows` : two fields share no bit; a piece holds its part of a value.
* `Field.depositAll` : the word with several fields replaced.
* `Word.lowest` : the word of a width that has given lowest bits.

## Main results

* `Field.getLsbD_depositAll_of_mem`, `Field.getLsbD_depositAll_of_free` : the bits that lie in the
  fields, and the bits that lie in none.
* `Field.and_union_eq_depositAll_iff` : several values are tested by one mask and one value.
* `Fragment.gather_eq_of_shows` : an operand is gathered from a word that shows it in pieces.
-/

namespace TriCore

namespace Field

/-! ### Contents of fields -/

/-- Two fields share no bit. -/
def Apart (f g : Field) : Prop := f.offset + f.width ≤ g.offset ∨ g.offset + g.width ≤ f.offset

instance (f g : Field) : Decidable (f.Apart g) := inferInstanceAs (Decidable (_ ∨ _))

theorem Apart.not_covers {f g : Field} (h : f.Apart g) {i : Nat} (hi : f.Covers i) :
    ¬g.Covers i := by
  rintro ⟨hle, hlt⟩
  have hle' := hi.1
  have hlt' := hi.2
  rcases h with h | h <;> omega

/-- The word with several fields replaced, one after the other. -/
def depositAll : List (Field × BitVec 32) → BitVec 32 → BitVec 32
  | [], bits => bits
  | content :: contents, bits => depositAll contents (content.1.deposit content.2 bits)

/-- A bit that lies in none of the fields is as before. -/
theorem getLsbD_depositAll_of_free {contents : List (Field × BitVec 32)} {i : Nat} (hi : i < 32)
    (hfree : ∀ content ∈ contents, ¬content.1.Covers i) (bits : BitVec 32) :
    (depositAll contents bits).getLsbD i = bits.getLsbD i := by
  induction contents generalizing bits with
  | nil => rfl
  | cons content contents ih =>
    have hhead := hfree content List.mem_cons_self
    rw [depositAll, ih fun other hother => hfree other (List.mem_cons_of_mem _ hother),
      getLsbD_deposit _ _ _ hi]
    exact if_neg hhead

/-- A bit that lies in one of the fields is that of its value. -/
theorem getLsbD_depositAll_of_mem {contents : List (Field × BitVec 32)}
    (hapart : contents.Pairwise fun a b => a.1.Apart b.1) {content : Field × BitVec 32}
    (hmem : content ∈ contents) {i : Nat} (hi : i < 32) (hcovers : content.1.Covers i)
    (bits : BitVec 32) :
    (depositAll contents bits).getLsbD i = content.2.getLsbD (i - content.1.offset) := by
  induction contents generalizing bits with
  | nil => cases hmem
  | cons first contents ih =>
    obtain ⟨hfirst, hrest⟩ := List.pairwise_cons.mp hapart
    rw [depositAll]
    rcases List.mem_cons.mp hmem with rfl | hmem
    · have hfree : ∀ other ∈ contents, ¬other.1.Covers i :=
        fun other hother => (hfirst other hother).not_covers hcovers
      rw [getLsbD_depositAll_of_free hi hfree, getLsbD_deposit _ _ _ hi]
      exact if_pos hcovers
    · exact ih hrest hmem _

/-- A word has given values in fields that share no bit exactly if it has them where the fields are,
all taken together. -/
theorem and_union_eq_depositAll_iff {contents : List (Field × BitVec 32)}
    (hapart : contents.Pairwise fun a b => a.1.Apart b.1)
    (hinside : ∀ content ∈ contents, content.1.offset + content.1.width ≤ 32)
    (hfit : ∀ content ∈ contents, content.2.toNat < 2 ^ content.1.width) (bits : BitVec 32) :
    bits &&& union (contents.map Prod.fst) = depositAll contents 0 ↔
      ∀ content ∈ contents, content.1.extract bits = content.2 := by
  have hunion {i : Nat} (hi : i < 32) : (union (contents.map Prod.fst)).getLsbD i = true ↔
      ∃ content ∈ contents, content.1.Covers i := by
    simp only [getLsbD_union hi, List.mem_map, exists_exists_and_eq_and]
  constructor
  · intro heq content hmem
    refine extract_eq_of_getLsbD (hfit content hmem) fun j hj => ?_
    have hi : content.1.offset + j < 32 := by
      have := hinside content hmem
      omega
    have hcovers : content.1.Covers (content.1.offset + j) := ⟨Nat.le_add_right .., by omega⟩
    have hbit := congrArg (fun value => value.getLsbD (content.1.offset + j)) heq
    simp only [BitVec.getLsbD_and, (hunion hi).mpr ⟨content, hmem, hcovers⟩, Bool.and_true,
      getLsbD_depositAll_of_mem hapart hmem hi hcovers, Nat.add_sub_cancel_left] at hbit
    exact hbit
  · intro hvalues
    refine BitVec.eq_of_getLsbD_eq fun i hi => ?_
    rw [BitVec.getLsbD_and]
    by_cases hcovered : ∃ content ∈ contents, content.1.Covers i
    · rw [(hunion hi).mpr hcovered, Bool.and_true]
      obtain ⟨content, hmem, hcovers⟩ := hcovered
      have hwidth : i - content.1.offset < content.1.width := by
        have := hcovers.1
        have := hcovers.2
        omega
      have hbit := congrArg (fun value => value.getLsbD (i - content.1.offset))
        (hvalues content hmem)
      simp only [getLsbD_extract, hwidth, Nat.lt_of_le_of_lt (Nat.sub_le ..) hi, decide_true,
        Bool.true_and, Nat.add_sub_cancel' hcovers.1] at hbit
      rw [getLsbD_depositAll_of_mem hapart hmem hi hcovers, hbit]
    · have hfree : ∀ content ∈ contents, ¬content.1.Covers i :=
        fun content hmem hcovers => hcovered ⟨content, hmem, hcovers⟩
      have hclear : (union (contents.map Prod.fst)).getLsbD i = false :=
        Bool.eq_false_iff.mpr (mt (hunion hi).mp hcovered)
      rw [hclear, Bool.and_false, getLsbD_depositAll_of_free hi hfree]
      exact BitVec.getLsbD_zero.symm

end Field

namespace Fragment

theorem totalWidth_eq_of_perm {pieces pieces' : List Fragment} (h : pieces.Perm pieces') :
    totalWidth pieces = totalWidth pieces' := by
  induction h with
  | nil => rfl
  | cons piece _ ih => rw [totalWidth, totalWidth, ih]
  | swap piece piece' pieces =>
    simp only [totalWidth]
    omega
  | trans _ _ ih ih' => exact ih.trans ih'

/-- The word shows the bits of a value in a piece. -/
def Shows (piece : Fragment) (bits value : BitVec 32) : Prop :=
  ∀ j < piece.field.width,
    bits.getLsbD (piece.field.offset + j) = value.getLsbD (piece.shift + j)

/-- An operand is gathered from a word that shows it in its pieces, if the pieces hold all of its
bits. -/
theorem gather_eq_of_shows {pieces : List Fragment} {bits value : BitVec 32} {width : Nat}
    (hvalue : value.toNat < 2 ^ width)
    (hall : ∀ j < width, ∃ piece ∈ pieces, piece.Fills j)
    (hshows : ∀ piece ∈ pieces, piece.Shows bits value) : gather pieces bits = value := by
  refine BitVec.eq_of_getLsbD_eq fun j hj => ?_
  have piece_bit {piece : Fragment} (hmem : piece ∈ pieces) (hfills : piece.Fills j) :
      bits.getLsbD (piece.field.offset + (j - piece.shift)) = value.getLsbD j := by
    obtain ⟨hle, hlt⟩ := hfills
    have hbit := hshows piece hmem (j - piece.shift) (by omega)
    rwa [Nat.add_sub_cancel' hle] at hbit
  rw [getLsbD_gather pieces bits hj, Bool.eq_iff_iff, List.any_eq_true]
  constructor
  · rintro ⟨piece, hmem, hbit⟩
    obtain ⟨hfills, hset⟩ := Bool.and_eq_true_iff.mp hbit
    rwa [piece_bit hmem (of_decide_eq_true hfills)] at hset
  · intro hset
    have hlt : j < width := by
      by_contra hge
      rw [getLsbD_of_toNat_lt hvalue (Nat.le_of_not_lt hge)] at hset
      cases hset
    obtain ⟨piece, hmem, hfills⟩ := hall j hlt
    exact ⟨piece, hmem, by rw [piece_bit hmem hfills, hset]; simp only [hfills, decide_true,
      Bool.and_self]⟩

end Fragment

/-! ### Lowest bits -/

theorem Width.limit_eq (w : Width) : w.limit = 2 ^ w.bits := by cases w <;> rfl

namespace Word

/-- The word of a width that has the lowest bits of a vector. -/
def lowest (width : Width) (bits : BitVec 32) : Word where
  width := width
  bits := (bits.setWidth width.bits).setWidth 32
  fits := by
    rw [Width.limit_eq, BitVec.toNat_setWidth]
    exact Nat.lt_of_le_of_lt (Nat.mod_le ..) (BitVec.isLt _)

@[simp] theorem width_lowest (width : Width) (bits : BitVec 32) :
    (lowest width bits).width = width := rfl

theorem getLsbD_lowest {width : Width} (bits : BitVec 32) {i : Nat} (hi : i < width.bits) :
    (lowest width bits).bits.getLsbD i = bits.getLsbD i := by
  have hword : i < 32 := Nat.lt_of_lt_of_le hi width.bits_le
  simp only [lowest, BitVec.getLsbD_setWidth, hword, hi, decide_true, Bool.true_and]

/-- The bits of a word above its width are clear. -/
theorem getLsbD_of_le (w : Word) {i : Nat} (hi : w.width.bits ≤ i) : w.bits.getLsbD i = false :=
  getLsbD_of_toNat_lt (w.width.limit_eq ▸ w.fits) hi

end Word

end TriCore
