import TriCore.Proofs.Word.Deposit
import TriCore.Word.Read

/-!
# Operands in pieces

What is gathered from a word is known bit by bit: a bit of the operand is set exactly if a piece
that holds it finds it set. The order of the pieces therefore has no influence, pieces may hold the
same bits of the operand, and what a piece sends above bit `31` is lost. If the pieces tile the
operand and their fields share no bit, each bit is held once and none is lost. Scattering then
writes every piece where it is read from, and gathering and scattering are inverse to each other.

## Main definitions

* `Fragment.Readable` : every piece lies inside a word and begins within the operand.
* `Fragment.Tile` : the pieces tile an operand, and their fields share no bit.

## Main results

* `Fragment.gather_eq_of_perm` : the order of the pieces has no influence.
* `Fragment.shows_scatter`, `Fragment.getLsbD_scatter_of_free` : what scattering writes, and what it
  leaves.
* `Fragment.gather_scatter`, `Fragment.scatter_gather` : gathering and scattering are inverse.
* `Fragment.gather_reassembles` : gathering is exact, and scattering is its inverse.
-/

namespace TriCore.Fragment

variable {pieces pieces' : List Fragment} {value bits : BitVec 32}

/-- Every piece lies inside a word and begins within the thirty-two bits of an operand. -/
def Readable (pieces : List Fragment) : Prop :=
  ∀ piece ∈ pieces, piece.field.InRange ∧ piece.shift < 32

instance (pieces : List Fragment) : Decidable (Readable pieces) :=
  inferInstanceAs (Decidable (∀ piece ∈ pieces, _))

/-- The pieces tile an operand: each of its bits is held by one piece, as many as the pieces have
together. The fields that they are read from share no bit. -/
structure Tile (pieces : List Fragment) : Prop where
  apart : pieces.Pairwise Apart
  within : ∀ piece ∈ pieces, piece.shift + piece.field.width ≤ totalWidth pieces
  complete : ∀ j < totalWidth pieces, ∃ piece ∈ pieces, piece.Fills j
  totalWidth_le : totalWidth pieces ≤ 32
  fields_apart : pieces.Pairwise fun p q => p.field.Apart q.field

instance (pieces : List Fragment) : Decidable (Tile pieces) :=
  decidable_of_iff
    (pieces.Pairwise Apart ∧
      (∀ piece ∈ pieces, piece.shift + piece.field.width ≤ totalWidth pieces) ∧
      (∀ j < totalWidth pieces, ∃ piece ∈ pieces, piece.Fills j) ∧
      totalWidth pieces ≤ 32 ∧ pieces.Pairwise fun p q => p.field.Apart q.field)
    ⟨fun ⟨apart, within, complete, le, fields⟩ => ⟨apart, within, complete, le, fields⟩,
      fun h => ⟨h.apart, h.within, h.complete, h.totalWidth_le, h.fields_apart⟩⟩

theorem Tile.wellPlaced (h : Tile pieces) : WellPlaced pieces :=
  ⟨h.apart, fun piece hmem => Nat.le_trans (h.within piece hmem) h.totalWidth_le⟩

/-! ### Gathering -/

/-- The order of the pieces has no influence on the operand. -/
theorem gather_eq_of_perm (h : pieces'.Perm pieces) (bits : BitVec 32) :
    gather pieces' bits = gather pieces bits := by
  refine BitVec.eq_of_getLsbD_eq fun j hj => ?_
  rw [getLsbD_gather pieces' bits hj, getLsbD_gather pieces bits hj, h.any_eq]

/-- The pieces of an operand are read from a word in any order. -/
theorem gather_word_eq_of_perm (h : Readable pieces) (hperm : pieces'.Perm pieces) (w : Word) :
    w.gather pieces' = .ok (gather pieces w.bits) := by
  have inRange : ∀ piece ∈ pieces', piece.field.InRange :=
    fun piece hmem => (h piece (hperm.mem_iff.mp hmem)).1
  rw [Word.gather_of_inRange w inRange, gather_eq_of_perm hperm]

theorem getLsbD_gather_iff (pieces : List Fragment) (bits : BitVec 32) (j : Nat) :
    (gather pieces bits).getLsbD j = true ↔ j < 32 ∧ ∃ piece ∈ pieces, piece.Fills j ∧
      bits.getLsbD (piece.field.offset + (j - piece.shift)) = true := by
  by_cases hj : j < 32
  · simp only [getLsbD_gather pieces bits hj, List.any_eq_true, Bool.and_eq_true,
      decide_eq_true_eq, hj, true_and]
  · simp only [BitVec.getLsbD_of_ge _ j (Nat.le_of_not_lt hj), hj, Bool.false_eq_true, false_and]

/-! ### Scattering -/

/-- The contents of the fields when a value is scattered. -/
def parts (pieces : List Fragment) (value : BitVec 32) : List (Field × BitVec 32) :=
  pieces.map fun piece => (piece.field, value >>> piece.shift)

theorem scatter_eq_depositAll (pieces : List Fragment) (value bits : BitVec 32) :
    scatter pieces value bits = Field.depositAll (parts pieces value) bits := by
  unfold scatter
  induction pieces generalizing bits with
  | nil => rfl
  | cons piece pieces ih => exact ih _

/-- Scattering leaves the bits that lie in none of the fields. -/
theorem getLsbD_scatter_of_free {i : Nat} (hi : i < 32)
    (hfree : ∀ piece ∈ pieces, ¬piece.field.Covers i) (value bits : BitVec 32) :
    (scatter pieces value bits).getLsbD i = bits.getLsbD i := by
  rw [scatter_eq_depositAll]
  exact Field.getLsbD_depositAll_of_free hi (List.forall_mem_map.mpr hfree) bits

/-- A bit of a field is, after scattering, the bit of the value that the piece holds there. -/
theorem getLsbD_scatter_of_mem (hfields : pieces.Pairwise fun p q => p.field.Apart q.field)
    {piece : Fragment} (hmem : piece ∈ pieces) {i : Nat} (hi : i < 32)
    (hcovers : piece.field.Covers i) (value bits : BitVec 32) :
    (scatter pieces value bits).getLsbD i =
      value.getLsbD (piece.shift + (i - piece.field.offset)) := by
  have hparts : (parts pieces value).Pairwise fun a b => a.1.Apart b.1 :=
    List.pairwise_map.mpr hfields
  have hpart : (piece.field, value >>> piece.shift) ∈ parts pieces value :=
    List.mem_map_of_mem hmem
  rw [scatter_eq_depositAll, Field.getLsbD_depositAll_of_mem hparts hpart hi hcovers,
    BitVec.getLsbD_ushiftRight]

/-- The word into which a value was scattered shows it in every piece. -/
theorem shows_scatter (h : Readable pieces)
    (hfields : pieces.Pairwise fun p q => p.field.Apart q.field) {piece : Fragment}
    (hmem : piece ∈ pieces) (value bits : BitVec 32) :
    piece.Shows (scatter pieces value bits) value := by
  intro j hj
  have hword : piece.field.offset + j < 32 := by
    have := (h piece hmem).1.2
    omega
  have hcovers : piece.field.Covers (piece.field.offset + j) := ⟨Nat.le_add_right .., by omega⟩
  rw [getLsbD_scatter_of_mem hfields hmem hword hcovers, Nat.add_sub_cancel_left]

/-! ### Gathering and scattering -/

/-- What was scattered is gathered again. -/
theorem gather_scatter (h : Readable pieces) (htile : Tile pieces)
    (hvalue : value.toNat < 2 ^ totalWidth pieces) (bits : BitVec 32) :
    gather pieces (scatter pieces value bits) = value :=
  gather_eq_of_shows hvalue htile.complete fun _ hmem =>
    shows_scatter h htile.fields_apart hmem value bits

/-- Scattering what was gathered changes nothing. -/
theorem scatter_gather (htile : Tile pieces) (bits : BitVec 32) :
    scatter pieces (gather pieces bits) bits = bits := by
  refine BitVec.eq_of_getLsbD_eq fun i hi => ?_
  by_cases hcovered : ∃ piece ∈ pieces, piece.field.Covers i
  · obtain ⟨piece, hmem, hcovers⟩ := hcovered
    have hfills : piece.Fills (piece.shift + (i - piece.field.offset)) := by
      have := hcovers.1
      have := hcovers.2
      constructor <;> omega
    rw [getLsbD_scatter_of_mem htile.fields_apart hmem hi hcovers,
      getLsbD_gather_of_mem htile.wellPlaced bits hmem hfills, Nat.add_sub_cancel_left,
      Nat.add_sub_cancel' hcovers.1]
  · exact getLsbD_scatter_of_free hi (fun piece hmem hcovers => hcovered ⟨piece, hmem, hcovers⟩) _ _

/-- The operands that the architecture stores in pieces are tiled by them. -/
theorem tile_operands :
    ∀ operand ∈ [offset18, displacement24, offset10, offset16, bitNumber],
      Readable operand ∧ Tile operand := by
  decide

/-- **Gathering is exact, and scattering is its inverse.** Let every piece lie inside a word and
begin within the operand. Then an operand is gathered, in any order of the pieces, and a bit of it
is set exactly if a piece that holds it finds it set in the word. If the pieces tile the operand and
their fields share no bit, the operand fits in as many bits as the pieces have together; scattering
writes a value into the fields of its pieces and leaves all other bits; a value that fits is
gathered again from any word that it was scattered into; and scattering what was gathered leaves the
word as it was. All of this holds for the operands that the architecture stores in pieces. -/
theorem gather_reassembles {pieces : List Fragment} (h : Readable pieces) (w : Word) :
    (∀ pieces', pieces'.Perm pieces → w.gather pieces' = .ok (gather pieces w.bits)) ∧
    (∀ j, (gather pieces w.bits).getLsbD j = true ↔ j < 32 ∧ ∃ piece ∈ pieces, piece.Fills j ∧
      w.bits.getLsbD (piece.field.offset + (j - piece.shift)) = true) ∧
    (Tile pieces →
      (gather pieces w.bits).toNat < 2 ^ totalWidth pieces ∧
      (∀ value, (∀ piece ∈ pieces, piece.Shows (scatter pieces value w.bits) value) ∧
        ∀ i < 32, (∀ piece ∈ pieces, ¬piece.field.Covers i) →
          (scatter pieces value w.bits).getLsbD i = w.bits.getLsbD i) ∧
      (∀ value : BitVec 32, value.toNat < 2 ^ totalWidth pieces →
        gather pieces (scatter pieces value w.bits) = value) ∧
      scatter pieces (gather pieces w.bits) w.bits = w.bits) ∧
    ∀ operand ∈ [offset18, displacement24, offset10, offset16, bitNumber],
      Readable operand ∧ Tile operand := by
  refine ⟨fun _ hperm => gather_word_eq_of_perm h hperm w, getLsbD_gather_iff pieces w.bits,
    fun htile => ⟨toNat_gather_lt htile.within w.bits, fun value => ⟨?_, ?_⟩,
      fun value hvalue => gather_scatter h htile hvalue w.bits, scatter_gather htile w.bits⟩,
    tile_operands⟩
  · exact fun _ hmem => shows_scatter h htile.fields_apart hmem value w.bits
  · exact fun i hi hfree => getLsbD_scatter_of_free hi hfree value w.bits

/-- A displacement in two pieces, put into a branch and taken from it in the other order; and pieces
that hold the same bits of an operand and send some above it. -/
theorem gather_reassembles_displacement24 :
    Readable displacement24 ∧ Tile displacement24 ∧
      scatter displacement24 0x00ABCDEF 0x0000001D = 0xCDEFAB1D ∧
      gather displacement24 (scatter displacement24 0x00ABCDEF 0x0000001D) = 0x00ABCDEF ∧
      (Word.long 0xCDEFAB1D).gather displacement24.reverse = .ok 0x00ABCDEF ∧
      Readable [placed 0 8 0, placed 8 8 28, placed 4 4 0] ∧
      (Word.long 0x0000F521).gather [placed 4 4 0, placed 8 8 28, placed 0 8 0] =
        .ok 0x50000023 := by
  have hread : Readable displacement24 := by decide
  have htile : Tile displacement24 := by decide
  have hover : Readable [placed 0 8 0, placed 8 8 28, placed 4 4 0] := by decide
  obtain ⟨-, -, hinverse, -⟩ := gather_reassembles hread (.long 0x0000001D)
  have hreverse := (gather_reassembles hread (.long 0xCDEFAB1D)).1 _ (List.reverse_perm _)
  have hany := (gather_reassembles hover (.long 0x0000F521)).1
    [placed 4 4 0, placed 8 8 28, placed 0 8 0] (by decide)
  exact ⟨hread, htile, rfl, (hinverse htile).2.2.1 0x00ABCDEF (by decide), hreverse, hover, hany⟩

end TriCore.Fragment
