import TriCore.Decoder
import TriCore.Proofs.Chart.Exclusion
import TriCore.Proofs.Format.Site

/-!
# Decoding with the architecture's tables

A decoder with the architecture's tables and descriptors decodes a word by the one pattern that
recognises it: it reads the sites of the pattern's candidate. With the architecture's registers
nothing can be missing, so a word that is recognised is decoded, and its operands are a function of
its bits.

## Main definitions

* `Candidate.sites` : where the operands of a candidate lie, for the architecture's descriptors.
* `Candidate.instruction` : the instruction that a candidate makes of a word.
* `Decoder.withRegisters` : the decoder with the architecture's tables and any registers.

## Main results

* `Decoder.decodeWord_of_tables` : decoding with the architecture's tables.
* `Decoder.decodeWord_withRegisters` : decoding with the architecture's tables and descriptors.
* `Decoder.decodeWord_standard` : decoding with the architecture's tables, descriptors and
  registers.
* `Decoder.exists_pattern_of_decodeWord_eq_ok` : every instruction comes from a pattern.
-/

namespace TriCore

open Decision Format

/-! ### Candidates of the chart -/

namespace Candidate

/-- Where the operands of a candidate lie, for the architecture's descriptors; there are none if the
descriptor does not declare the registers of the format. -/
def sites? (candidate : Candidate) : Option (List Site) :=
  match candidate.format.layout candidate.opcode.descriptor with
  | .ok sources => Format.sites? candidate.opcode.descriptor [] sources
  | .error _ => none

/-- Where the operands of a candidate lie. -/
def sites (candidate : Candidate) : List Site := candidate.sites?.getD []

/-- The instruction that a candidate makes of a word. -/
def instruction (candidate : Candidate) (w : Word) (address : UInt64) : Instruction :=
  ⟨candidate.opcode, candidate.sites.map (Site.operand w.bits), w.width, address⟩

end Candidate

namespace Chart

/-- The width selector that a pattern demands, if it tests the lowest bit first. -/
def Pattern.selector? (p : Pattern) : Option Bool :=
  p.fields.head?.bind fun test =>
    if test.1.offset = 0 ∧ 0 < test.1.width then some (test.2.getLsbD 0) else none

theorem Pattern.Matches.isLongForm_eq {p : Pattern} {w : Word} (h : p.Matches w) {selector : Bool}
    (hselector : p.selector? = some selector) : w.isLongForm = selector := by
  obtain ⟨test, htest, hif⟩ := Option.bind_eq_some_iff.mp hselector
  split at hif
  case isTrue hfield =>
    have hvalue := h test (List.mem_of_mem_head? htest)
    rw [← Option.some.inj hif, ← hvalue, Field.getLsbD_extract, hfield.1]
    simp [hfield.2, Word.isLongForm]
  case isFalse => cases hif

/-- A pattern of a width has a format of this width and demands the selector of this width. -/
theorem format_of_mem {width : Width} {p : Pattern} (hp : p ∈ patterns width) :
    p.candidate.format.width = width ∧ p.selector? = some (decide (width = .long)) := by
  revert p
  cases width <;> decide +kernel

/-- The architecture's descriptors declare the registers of every format in the chart. -/
theorem sites?_eq_some {width : Width} {p : Pattern} (hp : p ∈ patterns width) :
    p.candidate.sites? = some p.candidate.sites := by
  have declared : ∀ q ∈ patterns width, q.candidate.sites?.isSome := by
    cases width <;> decide +kernel
  obtain ⟨sites, hsites⟩ := Option.isSome_iff_exists.mp (declared p hp)
  rw [Candidate.sites, hsites, Option.getD_some]

/-- A word that a pattern of its width matches fits the format of the pattern. -/
theorem fits_of_matches {p : Pattern} {w : Word} (hp : p ∈ patterns w.width) (h : p.Matches w) :
    p.candidate.format.Fits w := by
  obtain ⟨hwidth, hselector⟩ := format_of_mem hp
  exact ⟨hwidth.symm, by rw [h.isLongForm_eq hselector, hwidth]⟩

end Chart

/-! ### Decoding words -/

namespace Decoder

variable {d : Decoder} {w : Word}

/-- Decoding with the architecture's tables: the candidate of the pattern that recognises the word,
if any, is assembled. -/
theorem decodeWord_of_tables (htables : ∀ width, d.table width = Table.ofWidth width)
    (address : UInt64) :
    d.decodeWord w address =
      match (Chart.patterns w.width).find? (·.Recognises w d.features) with
      | some p => d.assemble w address p.candidate
      | none => .error (.rejected (.noTableMatch w.bits w.width)) := by
  unfold decodeWord decodeWordLogged
  simp only [htables, Chart.walk_ofWidth]
  cases (Chart.patterns w.width).find? (·.Recognises w d.features) <;> rfl

/-- With the architecture's descriptors, a candidate is assembled by reading its sites. -/
theorem assemble_eq_mapM {candidate : Candidate} {sites : List Site}
    (hdescriptor : d.descriptors.get candidate.opcode = candidate.opcode.descriptor)
    (hfits : candidate.format.Fits w) (hsites : candidate.sites? = some sites)
    (address : UInt64) :
    d.assemble w address candidate =
      Source.orReject ((sites.mapM (Site.read d.registers w.bits)).map fun operands =>
        ⟨candidate.opcode, operands, w.width, address⟩) := by
  rw [Candidate.sites?] at hsites
  cases hlayout : candidate.format.layout candidate.opcode.descriptor with
  | error error => simp only [hlayout, reduceCtorEq] at hsites
  | ok sources =>
    rw [hlayout] at hsites
    have hcollect : Format.collect ⟨d.registers, candidate.opcode.descriptor⟩ w sources
        (.start candidate.opcode) =
          Site.collect d.registers w.bits sites (.start candidate.opcode) :=
      collect_eq_collect_sites w sources (inRange_of_layout hlayout) hsites rfl
    have hfinish (collected : Collected) :
        (collected.result.map fun _ => collected.draft.finish w.width address) =
          (collected.result.map fun _ => collected.draft).map fun draft =>
            draft.finish w.width address := by cases collected.result <;> rfl
    simp only [assemble, Format.decode, hdescriptor, if_pos hfits, hlayout, hcollect, ← hfits.1,
      hfinish, Site.map_collect_eq_mapM]
    cases sites.mapM (Site.read d.registers w.bits) <;> rfl

/-- The decoder with the architecture's descriptors and tables, and any registers. -/
def withRegisters (file : RegisterFile) (features : Features) : Decoder where
  registers := file
  descriptors := .standard
  short := .short
  long := .long
  features := features
  width_short := Table.width_short
  width_long := Table.width_long

theorem table_withRegisters (file : RegisterFile) (features : Features) (width : Width) :
    (withRegisters file features).table width = Table.ofWidth width := by cases width <;> rfl

theorem descriptors_withRegisters (file : RegisterFile) (features : Features) :
    (withRegisters file features).descriptors = .standard := by rw [withRegisters]

theorem features_withRegisters (file : RegisterFile) (features : Features) :
    (withRegisters file features).features = features := rfl

theorem withRegisters_standard (features : Features) :
    withRegisters .standard features = standard features := by rw [withRegisters, standard]

/-- It is the decoder that is assembled from these parts. -/
theorem ofParts_withRegisters (file : RegisterFile) (features : Features) :
    ofParts file .standard .short .long features = .ok (withRegisters file features) := by
  rw [ofParts, dif_pos Table.width_short, dif_pos Table.width_long, withRegisters]

theorem eq_withRegisters_of_ofParts {file : RegisterFile} {features : Features}
    (h : ofParts file .standard .short .long features = .ok d) : d = withRegisters file features :=
  Except.ok.inj (h.symm.trans (ofParts_withRegisters file features))

/-- A word is decoded by the pattern that recognises it, and by nothing else. What is left to fail
is that a register is missing. -/
theorem decodeWord_withRegisters (file : RegisterFile) (features : Features) (w : Word)
    (address : UInt64) :
    (withRegisters file features).decodeWord w address =
      match (Chart.patterns w.width).find? (·.Recognises w features) with
      | some p =>
        Source.orReject ((p.candidate.sites.mapM (Site.read file w.bits)).map fun operands =>
          ⟨p.candidate.opcode, operands, w.width, address⟩)
      | none => .error (.rejected (.noTableMatch w.bits w.width)) := by
  rw [decodeWord_of_tables (table_withRegisters file features), features_withRegisters]
  cases hfind : (Chart.patterns w.width).find? (·.Recognises w features) with
  | none => rfl
  | some p =>
    obtain ⟨hp, hrecognises⟩ := Chart.recognises_of_find?_eq_some hfind
    have hdescriptor : (withRegisters file features).descriptors.get p.candidate.opcode =
        p.candidate.opcode.descriptor := by
      rw [descriptors_withRegisters, DescriptorTable.get_standard]
    exact assemble_eq_mapM hdescriptor (Chart.fits_of_matches hp hrecognises.matches)
      (Chart.sites?_eq_some hp) address

/-- A word that a pattern recognises is decoded by reading the sites of the pattern. -/
theorem decodeWord_withRegisters_of_recognises {width : Width} {p : Chart.Pattern}
    (hp : p ∈ Chart.patterns width) (hw : w.width = width) {features : Features}
    (h : p.Recognises w features) (file : RegisterFile) (address : UInt64) :
    (withRegisters file features).decodeWord w address =
      Source.orReject ((p.candidate.sites.mapM (Site.read file w.bits)).map fun operands =>
        ⟨p.candidate.opcode, operands, w.width, address⟩) := by
  subst hw
  rw [decodeWord_withRegisters, Chart.find?_recognises_eq_some hp h]

/-- An instruction consists of the operands in the sites of a pattern that recognises the word. -/
theorem exists_sites_of_decodeWord_eq_ok {file : RegisterFile} {features : Features}
    {address : UInt64} {i : Instruction}
    (h : (withRegisters file features).decodeWord w address = .ok i) :
    ∃ p ∈ Chart.patterns w.width, p.Recognises w features ∧
      p.candidate.sites.mapM (Site.read file w.bits) = .ok i.operands ∧
        i = ⟨p.candidate.opcode, i.operands, w.width, address⟩ := by
  rw [decodeWord_withRegisters] at h
  cases hfind : (Chart.patterns w.width).find? (·.Recognises w features) with
  | none => simp only [hfind, reduceCtorEq] at h
  | some p =>
    obtain ⟨hp, hrecognises⟩ := Chart.recognises_of_find?_eq_some hfind
    rw [hfind] at h
    cases hread : p.candidate.sites.mapM (Site.read file w.bits) with
    | error error =>
      simp only [hread, Except.map, Source.orReject, Except.mapError, reduceCtorEq] at h
    | ok operands =>
      simp only [hread, Except.map, Source.orReject, Except.mapError, Except.ok.injEq] at h
      exact ⟨p, hp, hrecognises, h ▸ hread, h ▸ rfl⟩

/-- **Decoding a word of the architecture.** A word is decoded by the pattern that recognises it,
and by nothing else. -/
theorem decodeWord_standard (features : Features) (w : Word) (address : UInt64) :
    (standard features).decodeWord w address =
      match (Chart.patterns w.width).find? (·.Recognises w features) with
      | some p => .ok (p.candidate.instruction w address)
      | none => .error (.rejected (.noTableMatch w.bits w.width)) := by
  rw [← withRegisters_standard, decodeWord_withRegisters]
  cases (Chart.patterns w.width).find? (·.Recognises w features) with
  | none => rfl
  | some p =>
    simp only [Site.mapM_read_standard]
    rfl

/-- A word is decoded by a pattern that recognises it. -/
theorem decodeWord_of_recognises {width : Width} {p : Chart.Pattern}
    (hp : p ∈ Chart.patterns width) {w : Word} (hw : w.width = width) {features : Features}
    (h : p.Recognises w features) (address : UInt64) :
    (standard features).decodeWord w address = .ok (p.candidate.instruction w address) := by
  subst hw
  rw [decodeWord_standard, Chart.find?_recognises_eq_some hp h]

/-- An instruction was made by the candidate of a pattern that recognises the word. -/
theorem exists_pattern_of_decodeWord_eq_ok {features : Features} {w : Word} {address : UInt64}
    {i : Instruction} (h : (standard features).decodeWord w address = .ok i) :
    ∃ p ∈ Chart.patterns w.width,
      p.Recognises w features ∧ i = p.candidate.instruction w address := by
  rw [← withRegisters_standard] at h
  obtain ⟨p, hp, hrecognises, hread, hi⟩ := exists_sites_of_decodeWord_eq_ok h
  have hoperands : p.candidate.sites.map (Site.operand w.bits) = i.operands := by
    rw [Site.mapM_read_standard] at hread
    exact Except.ok.inj hread
  exact ⟨p, hp, hrecognises, hi.trans (by rw [Candidate.instruction, hoperands])⟩

end Decoder

end TriCore
