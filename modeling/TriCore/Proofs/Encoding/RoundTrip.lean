import Mathlib.Data.List.Forall2
import TriCore.Proofs.Chart.Mask
import TriCore.Proofs.Decoder.Standard
import TriCore.Proofs.Decoder.WidthSelector
import TriCore.Proofs.Encoding.Diagram

/-!
# Decoding undoes encoding

Whatever values the operands of an instruction have, and whatever the bits are that its format does
not use, the word that encodes it is decoded to it. The cells of a diagram and the constants of its
opcode share no bit, so that no value disturbs the recognition of the opcode or another value; the
pattern of the opcode therefore recognises the word, and no other does. The sites that the operands
are read from hold exactly the pieces that the diagram draws, so that every value is read back.

What the argument needs to know of the chart and of the layouts is checked for each pattern; what
follows from it for all values is proved once.

## Main definitions

* `Candidate.Holds` : a site of a candidate is where its diagram draws a value.

## Main results

* `Chart.pairwise_apart` : the constants and the cells of a pattern share no bit.
* `Chart.holds_sites`, `Chart.length_slots` : the sites of a candidate agree with its diagram, and
  an operand is declared for each value.
* `Candidate.matches_encode`, `Candidate.instruction_encode` : the word that encodes a candidate has
  its pattern and its operands.
* `Decoder.decode_encode` : decoding undoes encoding.
-/

namespace TriCore

open Decision Format

/-! ### Agreement of diagrams and layouts -/

/-- A site is where the diagram draws the value of an operand, and holds an operand of the declared
kind. -/
def Candidate.Holds (c : Candidate) : Site → OperandKind × Role → Prop
  | .register cls offset, (kind, role) =>
    kind = .register cls ∧ c.pieces role = Fragment.whole offset 4
  | .immediate pieces, (kind, role) => kind = .immediate ∧ pieces.Perm (c.pieces role)

instance (c : Candidate) : (site : Site) → (slot : OperandKind × Role) →
    Decidable (c.Holds site slot)
  | .register .., (_, _) => inferInstanceAs (Decidable (_ ∧ _))
  | .immediate .., (_, _) => inferInstanceAs (Decidable (_ ∧ _))

namespace Chart

/-- The fields of a pattern: those of its constants, and the cells of its candidate. -/
def Pattern.allFields (p : Pattern) : List Field :=
  p.fields.map Prod.fst ++ p.candidate.cells.map (·.piece.field)

variable {width : Width} {p : Pattern}

/-- The constants and the cells of a pattern share no bit. -/
theorem pairwise_apart (hp : p ∈ patterns width) : p.allFields.Pairwise Field.Apart := by
  revert p
  cases width <;> decide +kernel

/-- The constants and the cells of a pattern lie inside the words of its width. -/
theorem allFields_inside (hp : p ∈ patterns width) :
    ∀ f ∈ p.allFields, f.offset + f.width ≤ width.bits := by
  revert p
  cases width <;> decide +kernel

/-- The pieces of a value hold all of its bits. -/
theorem exists_fills (hp : p ∈ patterns width) :
    ∀ role ∈ p.candidate.roles, ∀ j < p.candidate.breadth role,
      ∃ piece ∈ p.candidate.pieces role, piece.Fills j := by
  revert p
  cases width <;> decide +kernel

/-- The number of bits of a value is kept in eight bits without loss. -/
theorem breadth_le (hp : p ∈ patterns width) :
    ∀ role ∈ p.candidate.roles, p.candidate.breadth role ≤ 24 := by
  revert p
  cases width <;> decide +kernel

/-- The sites of a candidate agree with its diagram. -/
theorem holds_sites (hp : p ∈ patterns width) :
    List.Forall₂ p.candidate.Holds p.candidate.sites p.candidate.slots := by
  revert p
  cases width <;> decide +kernel

/-- The opcode declares as many operands as the format has. -/
theorem length_slots (hp : p ∈ patterns width) :
    p.candidate.slots.length = p.candidate.roles.length := by
  revert p
  cases width <;> decide +kernel

/-- No instruction needs more than revision 1.6.1. -/
theorem features_of_mem (hp : p ∈ patterns width) : p.features = .empty ∨ p.features = .tc161 := by
  revert p
  cases width <;> decide +kernel

/-- The constants of a candidate are those of its pattern. -/
theorem constants_candidate (hp : p ∈ patterns width) : p.candidate.constants = p.fields := by
  rw [Candidate.constants, (format_of_mem hp).1]
  cases hfind : (patterns width).find? (·.candidate = p.candidate) with
  | none => exact absurd (decide_eq_true rfl) (List.find?_eq_none.mp hfind p hp)
  | some q =>
    have hsame : q.candidate = p.candidate := by
      simpa only [decide_eq_true_eq] using List.find?_some hfind
    have hpattern : q = p :=
      eq_of_opcode_eq (List.mem_of_find?_eq_some hfind) hp (congrArg Candidate.opcode hsame)
    rw [hpattern]
    rfl

end Chart

/-! ### Reading an encoded word -/

namespace Candidate

open Chart

variable {width : Width} {p : Pattern} {values : Role → BitVec 32}

/-- The constants and the values are put into fields that share no bit. -/
theorem pairwise_apart_contents (hp : p ∈ patterns width) (values : Role → BitVec 32) :
    (p.fields ++ p.candidate.contents values).Pairwise fun a b => a.1.Apart b.1 := by
  have hfields : p.allFields = (p.fields ++ p.candidate.contents values).map Prod.fst := by
    rw [Pattern.allFields, contents, List.map_append, List.map_map]
    rfl
  have hapart := pairwise_apart hp
  rwa [hfields, List.pairwise_map] at hapart

/-- Every field of an encoded word has its content. -/
theorem getLsbD_encode (hp : p ∈ patterns width) {content : Field × BitVec 32}
    (hmem : content ∈ p.fields ++ p.candidate.contents values) {j : Nat}
    (hj : j < content.1.width) (unused : BitVec 32) :
    (p.candidate.encode values unused).bits.getLsbD (content.1.offset + j) =
      content.2.getLsbD j := by
  have hfield : content.1 ∈ p.allFields := by
    rcases List.mem_append.mp hmem with h | h
    · exact List.mem_append_left _ (List.mem_map_of_mem h)
    · obtain ⟨cell, hcell, rfl⟩ := List.mem_map.mp h
      exact List.mem_append_right _ (List.mem_map_of_mem hcell)
  have hinside := allFields_inside hp content.1 hfield
  have hbit : content.1.offset + j < width.bits := by omega
  have hcovers : content.1.Covers (content.1.offset + j) := ⟨Nat.le_add_right .., by omega⟩
  rw [encode, constants_candidate hp, (format_of_mem hp).1, Word.getLsbD_lowest _ hbit,
    Field.getLsbD_depositAll_of_mem (pairwise_apart_contents hp values) hmem
      (Nat.lt_of_lt_of_le hbit width.bits_le) hcovers, Nat.add_sub_cancel_left]

/-- The word that encodes a candidate has the constants of its pattern. -/
theorem matches_encode (hp : p ∈ patterns width) (values : Role → BitVec 32)
    (unused : BitVec 32) : p.Matches (p.candidate.encode values unused) := fun test htest =>
  Field.extract_eq_of_getLsbD (constants_fit hp test htest) fun _ hj =>
    getLsbD_encode hp (List.mem_append_left _ htest) hj unused

/-- The word that encodes a candidate shows every value in its pieces. -/
theorem shows_encode (hp : p ∈ patterns width) {role : Role} {piece : Fragment}
    (hpiece : piece ∈ p.candidate.pieces role) (values : Role → BitVec 32)
    (unused : BitVec 32) : piece.Shows (p.candidate.encode values unused).bits (values role) := by
  obtain ⟨cell, hfilter, rfl⟩ := List.mem_map.mp hpiece
  obtain ⟨hcell, hrole⟩ := List.mem_filter.mp hfilter
  obtain rfl := of_decide_eq_true hrole
  intro j hj
  have hcontent : (cell.piece.field, values cell.role >>> cell.piece.shift) ∈
      p.fields ++ p.candidate.contents values :=
    List.mem_append_right _ (List.mem_map_of_mem hcell)
  rw [getLsbD_encode hp hcontent hj unused, BitVec.getLsbD_ushiftRight]

/-- A site that holds a value is read as the operand that the value is. -/
theorem operand_encode (hp : p ∈ patterns width) (hvalues : p.candidate.Admits values)
    {site : Site} {slot : OperandKind × Role} (hholds : p.candidate.Holds site slot)
    (hrole : slot.2 ∈ p.candidate.roles) (unused : BitVec 32) :
    site.operand (p.candidate.encode values unused).bits = p.candidate.operand values slot := by
  obtain ⟨kind, role⟩ := slot
  have hfits := hvalues role hrole
  cases site with
  | register cls offset =>
    obtain ⟨rfl, hpieces⟩ := hholds
    rw [breadth, hpieces] at hfits
    have hnumber : (Source.registerField offset).extract
        (p.candidate.encode values unused).bits = values role := by
      refine Field.extract_eq_of_getLsbD hfits fun j hj => ?_
      have hpiece : Fragment.placed offset 4 0 ∈ p.candidate.pieces role :=
        hpieces ▸ List.mem_singleton_self _
      have hbit := shows_encode hp hpiece values unused j hj
      rwa [Fragment.placed, Nat.zero_add] at hbit
    rw [Site.operand, operand, hnumber, RegisterFile.named]
  | immediate pieces =>
    obtain ⟨rfl, hperm⟩ := hholds
    have hgather : Fragment.gather pieces (p.candidate.encode values unused).bits =
        values role := by
      refine Fragment.gather_eq_of_shows hfits (fun j hj => ?_) fun piece hpiece => ?_
      · obtain ⟨piece, hpiece, hfills⟩ := exists_fills hp role hrole j hj
        exact ⟨piece, hperm.mem_iff.mpr hpiece, hfills⟩
      · exact shows_encode hp (hperm.mem_iff.mp hpiece) values unused
    have hwidth : Fragment.totalWidth pieces = p.candidate.breadth role :=
      Fragment.totalWidth_eq_of_perm hperm
    rw [Site.operand, operand, hgather, hwidth, Operand.ofField]

/-- The instruction that a candidate makes of the word that encodes it has the operands that were
encoded. -/
theorem instruction_encode (hp : p ∈ patterns width) (hvalues : p.candidate.Admits values)
    (unused : BitVec 32) (address : UInt64) :
    p.candidate.instruction (p.candidate.encode values unused) address =
      ⟨p.candidate.opcode, p.candidate.operands values, width, address⟩ := by
  have hoperands : p.candidate.sites.map
      (Site.operand (p.candidate.encode values unused).bits) = p.candidate.operands values := by
    obtain ⟨hlength, hzip⟩ := List.forall₂_iff_zip.mp (holds_sites hp)
    rw [operands, ← List.forall₂_eq_eq_eq, List.forall₂_map_left_iff, List.forall₂_map_right_iff]
    refine List.forall₂_iff_zip.mpr ⟨hlength, fun {site slot} hmem => ?_⟩
    have hrole : slot.2 ∈ p.candidate.roles := (List.of_mem_zip (List.of_mem_zip hmem).2).2
    exact operand_encode hp hvalues (hzip hmem) hrole unused
  rw [instruction, hoperands, width_encode, (format_of_mem hp).1]

end Candidate

/-! ### The round trip -/

namespace Decoder

/-- **Decoding undoes encoding.** Let a table of the architecture bind an opcode to a format, and
let the values of the operand fields be in range. The word that has the constants of the opcode and
the values in their places, with anything in the bits that are not used, is decoded to that opcode
with those operands, and so are all bytes that begin with the word. There is an operand for each
value of the format, and no value has more than `24` bits. -/
theorem decode_encode {features : Features} (hfeatures : features.Contains .tc161) {width : Width}
    {c : Candidate} (hbinds : (Table.ofWidth width).Binds c) {values : Role → BitVec 32}
    (hvalues : c.Admits values) (unused : BitVec 32) (address : UInt64) (rest : List UInt8) :
    (c.encode values unused).width = width ∧
    (standard features).decodeWord (c.encode values unused) address =
      .ok ⟨c.opcode, c.operands values, width, address⟩ ∧
    (standard features).decode ((c.encode values unused).toBytes ++ rest) address =
      .ok ⟨c.opcode, c.operands values, width, address⟩ ∧
    (c.operands values).length = c.roles.length ∧ ∀ role ∈ c.roles, c.breadth role ≤ 24 := by
  obtain ⟨p, hp, rfl⟩ := Chart.binds_ofWidth_iff.mp hbinds
  have hwidth : (p.candidate.encode values unused).width = width := (Chart.format_of_mem hp).1
  have hrequired : features.Contains p.features := by
    rcases Chart.features_of_mem hp with h | h
    · exact h ▸ Chart.contains_empty features
    · exact h ▸ hfeatures
  have hword := decodeWord_of_recognises hp hwidth
    ⟨Candidate.matches_encode hp values unused, hrequired⟩ address
  rw [Candidate.instruction_encode hp hvalues] at hword
  refine ⟨hwidth, hword, decode_of_decodeWord_eq_ok (tablesInRange_standard features)
    (List.prefix_append _ rest) hword, ?_, Chart.breadth_le hp⟩
  rw [Candidate.operands, List.length_map, Chart.length_slots hp]

/-- Values for an instruction with three registers and a modifier. -/
def threeRegisters : Role → BitVec 32
  | .first => 1
  | .second => 2
  | .destination => 3
  | .modifier => 1
  | _ => 0

/-- Values for an instruction with two pairs, each given by the number of its second half, and a
displacement. -/
def oddPairs : Role → BitVec 32
  | .first => 5
  | .second => 3
  | .displacement => 0x2D5
  | _ => 0

/-- A tied instruction lists its destination twice, and the bits `18` and `19` of its word, which
are set here, do not matter. The third pair of data registers has the numbers `4` and `5`, the
second pair of address registers `2` and `3`. The displacement behind them lies in two pieces. -/
theorem decode_encode_tiedAndPaired :
    Features.tc161.Contains .tc161 ∧
      ((Table.ofWidth .long).Binds ⟨.andEqRr, .rr⟩ ∧
        Candidate.Admits ⟨.andEqRr, .rr⟩ threeRegisters ∧
        Candidate.encode ⟨.andEqRr, .rr⟩ threeRegisters (.allOnes 32) = .long 0x320D210B ∧
        (standard .tc161).decode [0x0B, 0x21, 0x0D, 0x32, 0xFF] 4 =
          .ok ⟨.andEqRr, [.register .data ⟨20⟩, .register .data ⟨20⟩, .register .data ⟨18⟩,
            .register .data ⟨19⟩, .immediate 1 2], .long, 4⟩) ∧
      (Table.ofWidth .long).Binds ⟨.ldDCirc, .bo⟩ ∧ Candidate.Admits ⟨.ldDCirc, .bo⟩ oddPairs ∧
        Candidate.encode ⟨.ldDCirc, .bo⟩ oddPairs (.allOnes 32) = .long 0xB5553529 ∧
        (standard .tc161).decode [0x29, 0x35, 0x55, 0xB5] 0 =
          .ok ⟨.ldDCirc, [.register .extended ⟨35⟩, .register .addressPair ⟨50⟩,
            .immediate 0x2D5 10], .long, 0⟩ := by
  have hfeatures : Features.tc161.Contains .tc161 := by decide
  have htied : (Table.ofWidth .long).Binds ⟨.andEqRr, .rr⟩ :=
    Chart.binds_ofWidth_iff.mpr (by decide +kernel)
  have hpaired : (Table.ofWidth .long).Binds ⟨.ldDCirc, .bo⟩ :=
    Chart.binds_ofWidth_iff.mpr (by decide +kernel)
  have hthree : Candidate.Admits ⟨.andEqRr, .rr⟩ threeRegisters := by
    unfold Candidate.Admits
    decide
  have hodd : Candidate.Admits ⟨.ldDCirc, .bo⟩ oddPairs := by
    unfold Candidate.Admits
    decide
  have hword : Candidate.encode ⟨.andEqRr, .rr⟩ threeRegisters (.allOnes 32) =
      .long 0x320D210B := by decide +kernel
  have hword' : Candidate.encode ⟨.ldDCirc, .bo⟩ oddPairs (.allOnes 32) =
      .long 0xB5553529 := by decide +kernel
  have hdecode := (decode_encode hfeatures htied hthree (.allOnes 32) 4 [0xFF]).2.2.1
  have hdecode' := (decode_encode hfeatures hpaired hodd (.allOnes 32) 0 []).2.2.1
  rw [hword] at hdecode
  rw [hword'] at hdecode'
  exact ⟨hfeatures, ⟨htied, hthree, hword, hdecode⟩, hpaired, hodd, hword', hdecode'⟩

end Decoder

end TriCore
