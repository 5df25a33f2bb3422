import TriCore.Proofs.Encoding.RoundTrip

/-!
# The bits that an instruction ignores

An instruction determines all bits of its word but a few. Those that it does not determine lie in no
constant and in no operand of its format, or are the lowest bit of the number of a register that
stands for a pair, which is dropped when the number is halved. Every other bit is shown either by
the opcode or by an operand, so two words give the same opcode and operands exactly if they agree
apart from the ignored bits. Short instructions ignore no bit.

## Main definitions

* `Format.Spare` : the bits that a format has no use for.
* `Candidate.Ignores`, `Opcode.Ignores` : the bits that an instruction ignores.
* `Format.Site.shown`, `Chart.Pattern.shown` : the fields that an operand shows, and those that the
  opcode and all operands show.

## Main results

* `Format.Site.operand_eq_iff` : two words have the same operand in a site if they agree on the
  bits that it shows.
* `Chart.covered_iff` : the opcode and the operands show exactly the bits that are not ignored.
* `Decoder.decodeWord_of_agree` : the ignored bits may have any value.
* `Decoder.same_iff_agree` : two words give the same opcode and operands if they agree on the bits
  that are not ignored.
-/

namespace TriCore

open Decision Format

/-! ### Ignored bits -/

/-- The fields of a format that hold neither a constant nor an operand. -/
def Format.spare (f : Format) (d : Descriptor) : List Field :=
  match f with
  | rr | rrr => [⟨18, 2⟩]
  | rlc => if d.operands.length = 2 then [⟨8, 4⟩] else []
  | sys => [⟨12, 10⟩, ⟨28, 4⟩]
  | rcrr | rrrr => [⟨16, 5⟩]
  | _ => []

/-- The operand is declared a register that stands for a pair. -/
def OperandKind.IsPair (kind : OperandKind) : Prop := kind = .extended ∨ kind = .addressPair

instance (kind : OperandKind) : Decidable kind.IsPair := inferInstanceAs (Decidable (_ ∨ _))

namespace Candidate

/-- The lowest bit of an operand that is declared to stand for a pair. -/
def halved (c : Candidate) (slot : OperandKind × Role) : List Field :=
  if slot.1.IsPair then (c.pieces slot.2).map fun piece => ⟨piece.field.offset, 1⟩ else []

/-- The fields that a candidate ignores: those that its format has no use for, and the lowest bit of
each register that stands for a pair. -/
def ignored (c : Candidate) : List Field :=
  c.format.spare c.opcode.descriptor ++ c.slots.flatMap c.halved

/-- The bits that a candidate ignores. -/
def Ignores (c : Candidate) (n : Nat) : Prop := ∃ f ∈ c.ignored, f.Covers n

end Candidate

/-- The bits that an opcode ignores in the format that a table binds it to. -/
def Opcode.Ignores (o : Opcode) (n : Nat) : Prop :=
  ∃ (width : Width) (c : Candidate), (Table.ofWidth width).Binds c ∧ c.opcode = o ∧ c.Ignores n

theorem Chart.ignores_opcode_iff {width : Width} {p : Pattern} (hp : p ∈ patterns width) {n : Nat} :
    p.candidate.opcode.Ignores n ↔ p.candidate.Ignores n := by
  constructor
  · rintro ⟨width', c, hbinds, hopcode, hn⟩
    obtain ⟨q, hq, rfl⟩ := binds_ofWidth_iff.mp hbinds
    rwa [eq_of_opcode_eq hq hp hopcode] at hn
  · exact fun hn => ⟨width, p.candidate, binds_ofWidth_iff.mpr ⟨p, hp, rfl⟩, rfl, hn⟩

/-! ### Shown bits -/

namespace Format.Site

/-- The fields of a word that an operand shows. A register that stands for a pair does not show the
lowest bit of its number. -/
def shown : Site → List Field
  | register cls offset =>
    match cls.transform with
    | .identity => [⟨offset, 4⟩]
    | .halve => [⟨offset + 1, 3⟩]
  | immediate pieces => pieces.map Fragment.field

/-- The operand in a site can be told from the bits that it shows. -/
def Sound : Site → Prop
  | register _ offset => offset + 4 ≤ 32
  | immediate pieces => Fragment.WellPlaced pieces

instance : (site : Site) → Decidable site.Sound
  | register _ offset => inferInstanceAs (Decidable (offset + 4 ≤ 32))
  | immediate pieces => inferInstanceAs (Decidable (Fragment.WellPlaced pieces))

/-- Two words have the same operand in a site exactly if they agree on the bits that it shows. -/
theorem operand_eq_iff {site : Site} (h : site.Sound) (bits₁ bits₂ : BitVec 32) :
    site.operand bits₁ = site.operand bits₂ ↔
      ∀ f ∈ site.shown, ∀ n, f.Covers n → bits₁.getLsbD n = bits₂.getLsbD n := by
  cases site with
  | register cls offset =>
    have hlt := toNat_extract_registerField_lt offset
    have hoffset : offset + 4 ≤ 32 := h
    rw [operand, operand, Operand.register.injEq, and_iff_right rfl,
      RegisterFile.named_eq_named_iff cls (hlt bits₁) (hlt bits₂),
      RegisterClass.position_eq_position_iff, shown]
    cases cls.transform with
    | identity =>
      have hrange : (Field.mk offset 4).InRange := ⟨Nat.succ_pos 3, hoffset⟩
      rw [List.forall_mem_singleton]
      exact Field.extract_eq_iff hrange bits₁ bits₂
    | halve =>
      have hrange : (Field.mk (offset + 1) 3).InRange := ⟨Nat.succ_pos 2, by omega⟩
      rw [List.forall_mem_singleton, IndexTransform.apply, IndexTransform.apply,
        Field.extract_ushiftRight, Field.extract_ushiftRight]
      exact Field.extract_eq_iff hrange bits₁ bits₂
  | immediate pieces =>
    rw [operand, operand, Operand.ofField, Operand.ofField, Operand.immediate.injEq,
      and_iff_left rfl, Fragment.gather_eq_iff h, shown, List.forall_mem_map]

end Format.Site

namespace Chart

variable {width : Width} {p : Pattern}

/-- The fields of a word that the opcode and the operands of a pattern show. -/
def Pattern.shown (p : Pattern) : List Field :=
  p.fields.map Prod.fst ++ p.candidate.sites.flatMap Site.shown

theorem sound_sites (hp : p ∈ patterns width) : ∀ site ∈ p.candidate.sites, site.Sound := by
  revert p
  cases width <;> decide +kernel

theorem inRange_shown (hp : p ∈ patterns width) : ∀ f ∈ p.shown, f.InRange := by
  revert p
  cases width <;> decide +kernel

/-- The opcode and the operands show what is left of a word without the ignored fields. -/
theorem union_shown (hp : p ∈ patterns width) :
    Field.union p.shown =
      (Field.mk 0 width.bits).mask &&& ~~~Field.union p.candidate.ignored := by
  revert p
  cases width <;> decide +kernel

theorem ignored_short (hp : p ∈ patterns .short) : p.candidate.ignored = [] := by
  revert p
  decide +kernel

/-- The opcode and the operands show exactly the bits of a word that are not ignored. -/
theorem covered_iff (hp : p ∈ patterns width) {n : Nat} (hn : n < 32) :
    (∃ f ∈ p.shown, f.Covers n) ↔ n < width.bits ∧ ¬p.candidate.Ignores n := by
  rw [Candidate.Ignores, ← Field.getLsbD_union hn, ← Field.getLsbD_union hn, union_shown hp]
  simp only [BitVec.getLsbD_and, BitVec.getLsbD_not, Field.getLsbD_mask, hn, Nat.zero_le,
    Nat.zero_add, true_and, decide_true, Bool.true_and, Bool.and_eq_true, decide_eq_true_eq,
    Bool.not_eq_true', Bool.not_eq_true]

/-! ### Two words of one pattern -/

variable {w₁ w₂ : Word}

/-- A word that shows the same as a word of the pattern has the pattern as well. -/
theorem matches_of_agree (hp : p ∈ patterns width) (h : p.Matches w₁)
    (hagree : ∀ f ∈ p.shown, ∀ n, f.Covers n → w₁.bits.getLsbD n = w₂.bits.getLsbD n) :
    p.Matches w₂ := by
  intro test htest
  have hshown : test.1 ∈ p.shown := List.mem_append_left _ (List.mem_map_of_mem htest)
  have hsame := (Field.extract_eq_iff (inRange_shown hp _ hshown) w₁.bits w₂.bits).mpr
    (hagree _ hshown)
  rw [← hsame]
  exact h test htest

/-- Two words of a pattern have the same operands exactly if they show the same. -/
theorem operands_eq_iff (hp : p ∈ patterns width) (h₁ : p.Matches w₁) (h₂ : p.Matches w₂)
    (address₁ address₂ : UInt64) :
    (p.candidate.instruction w₁ address₁).operands =
        (p.candidate.instruction w₂ address₂).operands ↔
      ∀ f ∈ p.shown, ∀ n, f.Covers n → w₁.bits.getLsbD n = w₂.bits.getLsbD n := by
  rw [Candidate.instruction, Candidate.instruction, List.map_inj_left]
  constructor
  · intro heq f hf n hn
    rcases List.mem_append.mp hf with hconstant | hoperand
    · obtain ⟨test, htest, rfl⟩ := List.mem_map.mp hconstant
      have hsame := (h₁ test htest).trans (h₂ test htest).symm
      exact (Field.extract_eq_iff (inRange_shown hp _ hf) _ _).mp hsame n hn
    · obtain ⟨site, hsite, hsite_shown⟩ := List.mem_flatMap.mp hoperand
      exact (Site.operand_eq_iff (sound_sites hp site hsite) _ _).mp (heq site hsite) f
        hsite_shown n hn
  · intro hagree site hsite
    refine (Site.operand_eq_iff (sound_sites hp site hsite) _ _).mpr fun f hf => ?_
    exact hagree f (List.mem_append_right _ (List.mem_flatMap.mpr ⟨site, hsite, hf⟩))

/-- Two words of a width show the same exactly if they agree on the bits that are not ignored. -/
theorem agree_shown_iff (hp : p ∈ patterns width) (hw₁ : w₁.width = width)
    (hw₂ : w₂.width = width) :
    (∀ f ∈ p.shown, ∀ n, f.Covers n → w₁.bits.getLsbD n = w₂.bits.getLsbD n) ↔
      ∀ n, ¬p.candidate.Ignores n → w₁.bits.getLsbD n = w₂.bits.getLsbD n := by
  constructor
  · intro hagree n hn
    by_cases hlt : n < width.bits
    · have hword : n < 32 := Nat.lt_of_lt_of_le hlt width.bits_le
      obtain ⟨f, hf, hcovers⟩ := (covered_iff hp hword).mpr ⟨hlt, hn⟩
      exact hagree f hf n hcovers
    · have hle := Nat.le_of_not_lt hlt
      rw [w₁.getLsbD_of_le (hw₁ ▸ hle), w₂.getLsbD_of_le (hw₂ ▸ hle)]
  · intro hagree f hf n hcovers
    have hword : n < 32 := Nat.lt_of_lt_of_le hcovers.2 (inRange_shown hp f hf).2
    exact hagree n ((covered_iff hp hword).mp ⟨f, hf, hcovers⟩).2

end Chart

/-! ### Two decoded words -/

namespace Decoder

open Chart

/-- The ignored bits may have any value: a word that agrees with a decoded one on all other bits is
decoded to the same instruction. -/
theorem decodeWord_of_agree {features : Features} {w₁ w₂ : Word} (hwidth : w₁.width = w₂.width)
    {address : UInt64} {i : Instruction}
    (h : (standard features).decodeWord w₁ address = .ok i)
    (hagree : ∀ n, ¬i.opcode.Ignores n → w₁.bits.getLsbD n = w₂.bits.getLsbD n) :
    (standard features).decodeWord w₂ address = .ok i := by
  obtain ⟨p, hp, hr, rfl⟩ := exists_pattern_of_decodeWord_eq_ok h
  have hshown := (agree_shown_iff hp rfl hwidth.symm).mpr fun n hn =>
    hagree n (mt (ignores_opcode_iff hp).mp hn)
  have hmatches := matches_of_agree hp hr.matches hshown
  have hoperands := (operands_eq_iff hp hr.matches hmatches address address).mpr hshown
  have hsame : p.candidate.instruction w₂ address = p.candidate.instruction w₁ address := by
    rw [Candidate.instruction, Candidate.instruction, Instruction.mk.injEq]
    exact ⟨rfl, hoperands.symm, hwidth.symm, rfl⟩
  rw [decodeWord_of_recognises hp hwidth.symm ⟨hmatches, hr.2⟩, hsame]

/-- **Decoding loses nothing but the ignored bits.** Two words of the same width that are both
decoded give the same opcode and operands exactly if they agree on every bit that the opcode does
not ignore. A short word is determined by its opcode and operands. -/
theorem same_iff_agree {features : Features} {w₁ w₂ : Word} (hwidth : w₁.width = w₂.width)
    {address₁ address₂ : UInt64} {i₁ i₂ : Instruction}
    (h₁ : (standard features).decodeWord w₁ address₁ = .ok i₁)
    (h₂ : (standard features).decodeWord w₂ address₂ = .ok i₂) :
    ((i₁.opcode = i₂.opcode ∧ i₁.operands = i₂.operands) ↔
      ∀ n, ¬i₁.opcode.Ignores n → w₁.bits.getLsbD n = w₂.bits.getLsbD n) ∧
    (w₁.width = .short → i₁.opcode = i₂.opcode → i₁.operands = i₂.operands → w₁ = w₂) := by
  obtain ⟨p, hp, hr₁, rfl⟩ := exists_pattern_of_decodeWord_eq_ok h₁
  obtain ⟨q, hq, hr₂, rfl⟩ := exists_pattern_of_decodeWord_eq_ok h₂
  have hignores (n : Nat) : (p.candidate.instruction w₁ address₁).opcode.Ignores n ↔
      p.candidate.Ignores n := ignores_opcode_iff hp
  have hiff : ((p.candidate.instruction w₁ address₁).opcode =
        (q.candidate.instruction w₂ address₂).opcode ∧
      (p.candidate.instruction w₁ address₁).operands =
        (q.candidate.instruction w₂ address₂).operands) ↔
      ∀ n, ¬p.candidate.Ignores n → w₁.bits.getLsbD n = w₂.bits.getLsbD n := by
    rw [← agree_shown_iff hp rfl hwidth.symm]
    constructor
    · rintro ⟨hopcode, hoperands⟩
      obtain rfl := eq_of_opcode_eq hp hq hopcode
      exact (operands_eq_iff hp hr₁.matches hr₂.matches _ _).mp hoperands
    · intro hagree
      have hmatches := matches_of_agree hp hr₁.matches hagree
      obtain rfl := eq_of_matches (hwidth ▸ hp) hq hmatches hr₂.matches
      exact ⟨rfl, (operands_eq_iff hp hr₁.matches hr₂.matches _ _).mpr hagree⟩
  refine ⟨by simpa only [hignores] using hiff, fun hshort hopcode hoperands => ?_⟩
  refine Word.ext hwidth (BitVec.eq_of_getLsbD_eq fun n _ => ?_)
  refine hiff.mp ⟨hopcode, hoperands⟩ n ?_
  rintro ⟨f, hf, -⟩
  rw [ignored_short (hshort ▸ hp)] at hf
  cases hf

/-- Two words of one load of an extended register, of which the second has an odd register number:
they have the same operands, and agree on all bits that the load does not ignore. -/
theorem same_ldDAbs :
    (standard .empty).decodeWord (.long 0x6567B485) 0 =
        .ok ⟨.ldDAbs, [.register .extended ⟨35⟩, .immediate 0x2D5A7 18], .long, 0⟩ ∧
      (standard .empty).decodeWord (.long 0x6567B585) 4 =
        .ok ⟨.ldDAbs, [.register .extended ⟨35⟩, .immediate 0x2D5A7 18], .long, 4⟩ ∧
      ∀ n, ¬Opcode.ldDAbs.Ignores n →
        (0x6567B485 : BitVec 32).getLsbD n = (0x6567B585 : BitVec 32).getLsbD n := by
  have h₁ : (standard .empty).decodeWord (.long 0x6567B485) 0 =
      .ok ⟨.ldDAbs, [.register .extended ⟨35⟩, .immediate 0x2D5A7 18], .long, 0⟩ := by
    decide +kernel
  have h₂ : (standard .empty).decodeWord (.long 0x6567B585) 4 =
      .ok ⟨.ldDAbs, [.register .extended ⟨35⟩, .immediate 0x2D5A7 18], .long, 4⟩ := by
    decide +kernel
  have hwidth : (Word.long 0x6567B485).width = (Word.long 0x6567B585).width := rfl
  exact ⟨h₁, h₂, (same_iff_agree hwidth h₁ h₂).1.mp ⟨rfl, rfl⟩⟩

end Decoder

end TriCore
