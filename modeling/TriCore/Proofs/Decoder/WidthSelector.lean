import TriCore.Decoder
import TriCore.Proofs.Decision.Outcome
import TriCore.Proofs.Format.Range
import TriCore.Proofs.Word.Bytes

/-!
# The width selector decides the width

A decoder tries the short word at a place and, if that is rejected, the long one. Both words have
the same width selector, and every format refuses a word whose selector is not its own, so only the
word of the selected width can give an instruction. This holds for tables of any operations: they
may bind formats of the wrong width, or recognise words of the wrong form.

## Main definitions

* `Decoder.TablesInRange` : every field that the tables read lies inside a word.

## Main results

* `Decoder.assemble_eq_ok` : what a candidate has in common with the instruction made of it.
* `Decoder.decodeWord_eq_ok` : an instruction has the width that its word selects.
* `Decoder.decodeWord_ne_fault` : decoding a word does not fault.
* `Decoder.decode_eq` : decoding bytes in terms of decoding words.
* `Decoder.decode_eq_ok_iff` : an instruction is decoded exactly if the word of the selected width
  is there and encodes it.
-/

namespace TriCore.Decoder

open Decision

variable {d : Decoder} {w : Word} {address : UInt64} {i : Instruction}

/-- Every field that the tables of a decoder read lies inside a word. -/
def TablesInRange (d : Decoder) : Prop := d.short.InRange ∧ d.long.InRange

theorem TablesInRange.table (h : d.TablesInRange) (width : Width) : (d.table width).InRange := by
  cases width with
  | short => exact h.1
  | long => exact h.2

theorem tablesInRange_of_ofParts {registers : RegisterFile} {descriptors : DescriptorTable}
    {short long : Table} {features : Features}
    (h : ofParts registers descriptors short long features = .ok d) (hshort : short.InRange)
    (hlong : long.InRange) : d.TablesInRange := by
  unfold ofParts at h
  split at h
  · split at h
    · cases h
      exact ⟨hshort, hlong⟩
    · cases h
  · cases h

theorem tablesInRange_standard (features : Features) : (standard features).TablesInRange := by
  have hshort : Table.short.InRange := by decide +kernel
  have hlong : Table.long.InRange := by decide +kernel
  exact ⟨hshort, hlong⟩

/-! ### Candidates -/

/-- A candidate makes an instruction only of a word that fits its format. -/
theorem assemble_eq_ok {candidate : Candidate} (h : d.assemble w address candidate = .ok i) :
    candidate.format.Fits w ∧ i.width = candidate.format.width ∧ i.address = address := by
  unfold assemble at h
  dsimp only at h
  by_cases fits : candidate.format.Fits w
  · generalize candidate.format.decode _ w _ = collected at h
    obtain ⟨draft, result⟩ := collected
    cases result with
    | error halt => simp [Except.map] at h
    | ok _ =>
      cases h
      exact ⟨fits, rfl, rfl⟩
  · simp [Format.decode, fits, Except.map] at h

theorem assemble_ne_fault (candidate : Candidate) (field : Field) :
    d.assemble w address candidate ≠ .error (.fault field) := by
  have safe := Format.decode_ne_fault candidate.format
    ⟨d.registers, d.descriptors.get candidate.opcode⟩ w (.start candidate.opcode) field
  unfold assemble
  dsimp only
  generalize candidate.format.decode _ w _ = collected at safe
  obtain ⟨draft, result⟩ := collected
  cases result with
  | error halt => simpa [Except.map] using safe
  | ok _ => simp [Except.map]

/-- The result of an answer is the instruction that the candidate makes of the word. -/
@[simp] theorem fst_answer (commitment : Commitment) (candidate : Candidate) (log : List Event) :
    (d.answer w address commitment candidate log).1 = d.assemble w address candidate := by
  cases commitment with
  | final => rfl
  | tentative =>
    simp only [answer]
    split
    case h_1 error h => exact h.symm
    case h_2 => rfl

/-! ### Words -/

/-- An instruction has the width of its word, and the selector of the word agrees with it. -/
theorem decodeWord_eq_ok (hd : d.TablesInRange) (h : d.decodeWord w address = .ok i) :
    i.width = w.width ∧ w.isLongForm = decide (w.width = .long) ∧ i.address = address := by
  obtain ⟨commitment, candidate, log, hanswer⟩ := exists_offer_of_walk_eq_ok (hd.table w.width) h
  rw [fst_answer] at hanswer
  obtain ⟨⟨hwidth, hselector⟩, hi, haddress⟩ := assemble_eq_ok hanswer
  exact ⟨hi.trans hwidth.symm, hwidth ▸ hselector, haddress⟩

/-- Decoding a word succeeds or rejects the word. -/
theorem decodeWord_ne_fault (hd : d.TablesInRange) (field : Field) :
    d.decodeWord w address ≠ .error (.fault field) := by
  refine walk_ne_fault (hd.table w.width) (fun commitment candidate log field' => ?_) _ field
  rw [fst_answer]
  exact assemble_ne_fault candidate field'

/-! ### Bytes -/

/-- The short word is tried first, and the long one if the short one is rejected. -/
theorem decode_eq (d : Decoder) (bytes : List UInt8) (address : UInt64) :
    d.decode bytes address =
      match Word.fetch .short bytes with
      | .error halt => .error halt
      | .ok short =>
        match d.decodeWord short address with
        | .error (.rejected _) =>
          match Word.fetch .long bytes with
          | .error halt => .error halt
          | .ok long => d.decodeWord long address
        | result => result := by
  unfold decode decodeLogged
  cases Word.fetch .short bytes with
  | error halt => rfl
  | ok short =>
    simp only [decodeWord]
    generalize d.decodeWordLogged short address = first
    obtain ⟨value, log⟩ := first
    rcases value with (error | field) | i
    · cases Word.fetch .long bytes <;> rfl
    · rfl
    · rfl

/-- A word that encodes an instruction has the width that its bytes select. -/
theorem selected?_of_decodeWord_eq_ok (hd : d.TablesInRange) {bytes : List UInt8}
    (hw : w.toBytes <+: bytes) (h : d.decodeWord w address = .ok i) :
    Width.selected? bytes = some w.width := by
  rw [Word.selected?_eq_some hw, (decodeWord_eq_ok hd h).2.1]
  cases w.width <;> rfl

/-- An instruction that is decoded from bytes is encoded by a word at their start. -/
theorem exists_word_of_decode_eq_ok {bytes : List UInt8} (h : d.decode bytes address = .ok i) :
    ∃ w : Word, w.toBytes <+: bytes ∧ d.decodeWord w address = .ok i := by
  rw [decode_eq] at h
  cases hshort : Word.fetch .short bytes with
  | error halt => simp [hshort] at h
  | ok short =>
    rw [hshort] at h
    have short_prefix := (Word.fetch_eq_ok_iff.mp hshort).2
    rcases hfirst : d.decodeWord short address with (error | field) | j
    · cases hlong : Word.fetch .long bytes with
      | error halt => simp [hfirst, hlong] at h
      | ok long =>
        simp only [hfirst, hlong] at h
        exact ⟨long, (Word.fetch_eq_ok_iff.mp hlong).2, h⟩
    · simp [hfirst] at h
    · simp only [hfirst] at h
      exact ⟨short, short_prefix, hfirst.trans h⟩

/-- A word that encodes an instruction is decoded from all bytes that begin with it: the other word
there cannot take its place. -/
theorem decode_of_decodeWord_eq_ok (hd : d.TablesInRange) {bytes : List UInt8}
    (hw : w.toBytes <+: bytes) (h : d.decodeWord w address = .ok i) :
    d.decode bytes address = .ok i := by
  have selected := selected?_of_decodeWord_eq_ok hd hw h
  have two_le : Width.short.bytes ≤ bytes.length := by
    have := Word.length_le_of_prefix hw
    revert this
    cases w.width <;> simp only [Width.bytes] <;> omega
  obtain ⟨short, hshort⟩ := Word.exists_fetch_eq_ok two_le
  obtain ⟨width_short, short_prefix⟩ := Word.fetch_eq_ok_iff.mp hshort
  rw [decode_eq, hshort]
  cases hwidth : w.width with
  | short =>
    have same : short = w := by
      have := Word.fetch_eq_ok_iff.mpr ⟨hwidth, hw⟩
      rw [hshort] at this
      exact Except.ok.inj this
    simp only [same, h]
  | long =>
    have hlong := Word.fetch_eq_ok_iff.mpr ⟨hwidth, hw⟩
    rcases hfirst : d.decodeWord short address with (error | field) | j
    · simp only [hfirst, hlong, h]
    · exact absurd hfirst (decodeWord_ne_fault hd field)
    · -- The short word would have been of the selected width, which is the long one.
      have := selected?_of_decodeWord_eq_ok hd short_prefix hfirst
      simp [selected, hwidth, width_short] at this

/-- **The width selector alone decides the width.** A decoder assembled from any parts whose tables
read no field outside a word decodes an instruction from bytes exactly if they begin with a whole
word of the width that the lowest bit of the first byte selects, and that word encodes the
instruction. The instruction then has that width, is no longer than the bytes, and carries the
given address. -/
theorem decode_eq_ok_iff {registers : RegisterFile} {descriptors : DescriptorTable}
    {short long : Table} {features : Features} {d : Decoder}
    (hd : ofParts registers descriptors short long features = .ok d)
    (hshort : short.InRange) (hlong : long.InRange) (bytes : List UInt8) (address : UInt64)
    (i : Instruction) :
    (d.decode bytes address = .ok i ↔
      ∃ w : Word, w.toBytes <+: bytes ∧ Width.selected? bytes = some w.width ∧
        d.decodeWord w address = .ok i) ∧
    (d.decode bytes address = .ok i →
      Width.selected? bytes = some i.width ∧ i.size ≤ bytes.length ∧ i.address = address) := by
  have inRange : d.TablesInRange := tablesInRange_of_ofParts hd hshort hlong
  have chosen : d.decode bytes address = .ok i → ∃ w : Word, w.toBytes <+: bytes ∧
      Width.selected? bytes = some w.width ∧ d.decodeWord w address = .ok i := by
    intro h
    obtain ⟨w, hw, hword⟩ := exists_word_of_decode_eq_ok h
    exact ⟨w, hw, selected?_of_decodeWord_eq_ok inRange hw hword, hword⟩
  refine ⟨⟨chosen, ?_⟩, fun h => ?_⟩
  · rintro ⟨w, hw, -, hword⟩
    exact decode_of_decodeWord_eq_ok inRange hw hword
  · obtain ⟨w, hw, selected, hword⟩ := chosen h
    obtain ⟨hwidth, -, haddress⟩ := decodeWord_eq_ok inRange hword
    refine ⟨hwidth ▸ selected, ?_, haddress⟩
    rw [Instruction.size, hwidth]
    exact Word.length_le_of_prefix hw

/-- A table for short words that recognises a long form and binds it to a short format. -/
def misboundShort : Table := ⟨.short, select ⟨0, 8⟩ [(0x1D, commit ⟨.jSb, .sb⟩)]⟩

/-- A table for long words that recognises the same form. -/
def branchLong : Table := ⟨.long, select ⟨0, 8⟩ [(0x1D, commit ⟨.jB, .b⟩)]⟩

/-- The decoder with these two tables. -/
def misbound : Decoder :=
  ⟨.standard, .standard, misboundShort, branchLong, .all, rfl, rfl⟩

theorem decode_misbound :
    ofParts .standard .standard misboundShort branchLong .all = .ok misbound ∧
      misboundShort.InRange ∧ branchLong.InRange ∧
      misbound.decodeWord (.long 0x40001D) 8 = .ok ⟨.jB, [.immediate 0x40 24], .long, 8⟩ ∧
      misbound.decode [0x1D, 0x00, 0x40, 0x00] 8 = .ok ⟨.jB, [.immediate 0x40 24], .long, 8⟩ := by
  have hword : misbound.decodeWord (.long 0x40001D) 8 =
      .ok ⟨.jB, [.immediate 0x40 24], .long, 8⟩ := rfl
  have hshort : misboundShort.InRange := by decide
  have hlong : branchLong.InRange := by decide
  refine ⟨rfl, hshort, hlong, hword, ?_⟩
  exact (decode_eq_ok_iff rfl hshort hlong _ _ _).1.mpr
    ⟨.long 0x40001D, by decide, by decide, hword⟩

end TriCore.Decoder
