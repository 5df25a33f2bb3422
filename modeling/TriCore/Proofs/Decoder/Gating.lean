import TriCore.Proofs.Decoder.Failures

/-!
# What the configured features change

Two short instructions need a revision that may not be configured. A word that encodes one of them
is then recognised as nothing else: no other pattern has its fields, and no later arm of the table
is entered with success. The decoder goes on to the long word at the same place, which is not
recognised either, since its width selector is that of the short word. So the features decide
whether these two instructions are decoded, and nothing besides.

## Main results

* `Decoder.decodeWord_eq_ok_iff_enabledBy` : a word is decoded exactly if its opcode is enabled.
* `Decoder.decodeWord_eq_match`, `Decoder.decode_eq_match` : decoding with some of the features, in
  terms of decoding with all of them.
* `Decoder.decode_gated` : what the features change.
-/

namespace TriCore

/-! ### Features and opcodes -/

theorem Features.Contains.trans {a b c : Features} (hab : a.Contains b) (hbc : b.Contains c) :
    a.Contains c := by
  unfold Features.Contains at *
  calc a.bits &&& c.bits = a.bits &&& b.bits &&& c.bits := by rw [BitVec.and_assoc, hbc]
    _ = c.bits := by rw [hab, hbc]

namespace Opcode

/-- All named features suffice for every opcode. -/
theorem enabledBy_all (o : Opcode) : o.EnabledBy .all := fun _ => by decide

theorem EnabledBy.mono {o : Opcode} {features larger : Features} (h : o.EnabledBy features)
    (hlarger : larger.Contains features) : o.EnabledBy larger :=
  fun hopcode => hlarger.trans (h hopcode)

end Opcode

/-- No opcode of long words needs a feature. -/
theorem Chart.enabledBy_of_mem_long {p : Pattern} (hp : p ∈ patterns .long) (features : Features) :
    p.candidate.opcode.EnabledBy features := by
  have hnone : ∀ q ∈ patterns .long,
      ¬(q.candidate.opcode = .jeqSbc2 ∨ q.candidate.opcode = .jneSbc2) := by decide +kernel
  exact fun hopcode => absurd hopcode (hnone p hp)

namespace Decoder

variable {features : Features} {w : Word} {address : UInt64} {i : Instruction}

/-! ### Words -/

/-- A word is decoded with some of the features exactly if it is with all of them and they suffice
for its opcode. -/
theorem decodeWord_eq_ok_iff_enabledBy :
    (standard features).decodeWord w address = .ok i ↔
      (standard .all).decodeWord w address = .ok i ∧ i.opcode.EnabledBy features := by
  constructor
  · intro h
    obtain ⟨p, hp, hrecognises, rfl⟩ := exists_pattern_of_decodeWord_eq_ok h
    obtain ⟨haccepts, henabled⟩ := (Chart.recognises_iff hp).mp hrecognises
    have hall := (Chart.recognises_iff hp).mpr ⟨haccepts, p.candidate.opcode.enabledBy_all⟩
    exact ⟨decodeWord_of_recognises hp rfl hall address, henabled⟩
  · rintro ⟨h, henabled⟩
    obtain ⟨p, hp, hrecognises, rfl⟩ := exists_pattern_of_decodeWord_eq_ok h
    obtain ⟨haccepts, -⟩ := (Chart.recognises_iff hp).mp hrecognises
    have hfeatures := (Chart.recognises_iff hp).mpr ⟨haccepts, henabled⟩
    exact decodeWord_of_recognises hp rfl hfeatures address

/-- A word that is not decoded is not matched by its table. -/
theorem decodeWord_eq_noTableMatch
    (h : ∀ i, (standard features).decodeWord w address ≠ .ok i) :
    (standard features).decodeWord w address =
      .error (.rejected (.noTableMatch w.bits w.width)) := by
  cases hresult : (standard features).decodeWord w address with
  | ok i => exact absurd hresult (h i)
  | error halt => rw [(decodeWord_eq_error_iff.mp hresult).2]

/-- Decoding a word with some of the features. -/
theorem decodeWord_eq_match (features : Features) (w : Word) (address : UInt64) :
    (standard features).decodeWord w address =
      match (standard .all).decodeWord w address with
      | .ok i =>
        if i.opcode.EnabledBy features then .ok i
        else .error (.rejected (.noTableMatch w.bits w.width))
      | .error halt => .error halt := by
  cases hall : (standard .all).decodeWord w address with
  | ok i =>
    dsimp only
    split
    case isTrue henabled => exact decodeWord_eq_ok_iff_enabledBy.mpr ⟨hall, henabled⟩
    case isFalse hdisabled =>
      refine decodeWord_eq_noTableMatch fun j hj => ?_
      obtain ⟨hall', henabled⟩ := decodeWord_eq_ok_iff_enabledBy.mp hj
      rw [hall] at hall'
      cases hall'
      exact hdisabled henabled
  | error halt =>
    rw [(decodeWord_eq_error_iff.mp hall).2]
    refine decodeWord_eq_noTableMatch fun j hj => ?_
    rw [(decodeWord_eq_ok_iff_enabledBy.mp hj).1] at hall
    cases hall

/-- The features suffice for every long word. -/
theorem enabledBy_of_width_eq_long (hw : w.width = .long)
    (h : (standard .all).decodeWord w address = .ok i) (features : Features) :
    i.opcode.EnabledBy features := by
  obtain ⟨p, hp, -, rfl⟩ := exists_pattern_of_decodeWord_eq_ok h
  exact Chart.enabledBy_of_mem_long (hw ▸ hp) features

/-! ### Bytes -/

/-- What is left of bytes whose short word is not decoded and whose width selector is clear: the
report that the long word is missing or not matched. -/
def unmatchedLong (bytes : List UInt8) : Except Halt Instruction :=
  match Word.fetch .long bytes with
  | .ok long => .error (.rejected (.noTableMatch long.bits .long))
  | .error halt => .error halt

/-- The long word at the place of a short word that encodes an instruction is not matched, whatever
the features are. -/
theorem decodeWord_long_eq_error {bytes : List UInt8} {short long : Word}
    (hshort : Word.fetch .short bytes = .ok short) (hlong : Word.fetch .long bytes = .ok long)
    (h : (standard .all).decodeWord short address = .ok i) (features : Features) :
    (standard features).decodeWord long address =
      .error (.rejected (.noTableMatch long.bits .long)) := by
  obtain ⟨short_width, short_prefix⟩ := Word.fetch_eq_ok_iff.mp hshort
  obtain ⟨long_width, long_prefix⟩ := Word.fetch_eq_ok_iff.mp hlong
  have hselected := selected?_of_decodeWord_eq_ok (tablesInRange_standard .all) short_prefix h
  rw [← long_width]
  refine decodeWord_eq_noTableMatch fun j hj => ?_
  -- Both words have the selector of the bytes, which would have to be clear and set.
  have hselected' :=
    selected?_of_decodeWord_eq_ok (tablesInRange_standard features) long_prefix hj
  rw [hselected, short_width, long_width] at hselected'
  cases hselected'

/-- Decoding bytes with some of the features. -/
theorem decode_eq_match (features : Features) (bytes : List UInt8) (address : UInt64) :
    (standard features).decode bytes address =
      match (standard .all).decode bytes address with
      | .ok i => if i.opcode.EnabledBy features then .ok i else unmatchedLong bytes
      | .error halt => .error halt := by
  rw [decode_eq, decode_eq]
  cases hshort : Word.fetch .short bytes with
  | error halt => rfl
  | ok short =>
    simp only [decodeWord_eq_match features short address]
    rcases hfirst : (standard .all).decodeWord short address with (error | field) | i
    · cases hlong : Word.fetch .long bytes with
      | error halt => rfl
      | ok long =>
        simp only [decodeWord_eq_match features long address]
        cases hsecond : (standard .all).decodeWord long address with
        | error halt => rfl
        | ok i =>
          have henabled := enabledBy_of_width_eq_long (Word.fetch_eq_ok_iff.mp hlong).1 hsecond
            features
          simp only [if_pos henabled]
    · rfl
    · by_cases henabled : i.opcode.EnabledBy features
      · simp only [if_pos henabled]
      · simp only [if_neg henabled, unmatchedLong]
        cases hlong : Word.fetch .long bytes with
        | error halt => rfl
        | ok long => exact decodeWord_long_eq_error hshort hlong hfirst features

/-- Bytes are decoded with some of the features exactly if they are with all of them and these
suffice for the opcode. -/
theorem decode_eq_ok_iff_enabledBy {bytes : List UInt8} :
    (standard features).decode bytes address = .ok i ↔
      (standard .all).decode bytes address = .ok i ∧ i.opcode.EnabledBy features := by
  rw [decode_eq_match]
  cases (standard .all).decode bytes address with
  | error halt => simp
  | ok j =>
    by_cases henabled : j.opcode.EnabledBy features
    · simp only [if_pos henabled, Except.ok.injEq]
      exact ⟨fun h => ⟨h, h ▸ henabled⟩, And.left⟩
    · simp only [if_neg henabled, unmatchedLong, Except.ok.injEq]
      constructor
      · intro h
        cases hlong : Word.fetch .long bytes <;> simp only [hlong, reduceCtorEq] at h
      · rintro ⟨rfl, h⟩
        exact absurd h henabled

/-- **What the features change.** With any features, the architecture's decoder decodes bytes as it
does with all of them, unless it would decode one of the two short branches that need revision 1.6.1
and this revision is not configured. It then reports that there is no long word, or that the long
word is not matched. So whatever is decoded with some features is decoded alike with more of them.
-/
theorem decode_gated (features : Features) (bytes : List UInt8) (address : UInt64) :
    ((∀ i, (standard .all).decode bytes address = .ok i → i.opcode.EnabledBy features) →
      (standard features).decode bytes address = (standard .all).decode bytes address) ∧
    (∀ i, (standard .all).decode bytes address = .ok i →
      (i.opcode = .jeqSbc2 ∨ i.opcode = .jneSbc2) → ¬features.Contains .tc161 →
      (bytes.length < 4 → (standard features).decode bytes address =
        .error (.rejected (.insufficientData 4 bytes.length))) ∧
      (4 ≤ bytes.length → ∃ w, Word.fetch .long bytes = .ok w ∧
        (standard features).decode bytes address =
          .error (.rejected (.noTableMatch w.bits .long)))) ∧
    ∀ larger, larger.Contains features → ∀ i,
      (standard features).decode bytes address = .ok i →
        (standard larger).decode bytes address = .ok i := by
  refine ⟨fun henabled => ?_, fun i hall hopcode hmissing => ?_, fun larger hlarger i h => ?_⟩
  · rw [decode_eq_match]
    cases hall : (standard .all).decode bytes address with
    | ok i => exact if_pos (henabled i hall)
    | error halt => rfl
  · have hdisabled : ¬i.opcode.EnabledBy features := fun h => hmissing (h hopcode)
    have hgated : (standard features).decode bytes address = unmatchedLong bytes := by
      rw [decode_eq_match, hall]
      exact if_neg hdisabled
    rw [hgated, unmatchedLong]
    refine ⟨fun hlength => ?_, fun hlength => ?_⟩
    · have hnone : Word.fetch .long bytes =
          .error (.rejected (.insufficientData 4 bytes.length)) :=
        Word.fetch_eq_error_iff.mpr ⟨hlength, rfl⟩
      rw [hnone]
    · have hfound : ∃ w, Word.fetch .long bytes = .ok w := Word.exists_fetch_eq_ok hlength
      obtain ⟨w, hw⟩ := hfound
      exact ⟨w, hw, by rw [hw]⟩
  · obtain ⟨hall, henabled⟩ := decode_eq_ok_iff_enabledBy.mp h
    exact decode_eq_ok_iff_enabledBy.mpr ⟨hall, henabled.mono hlarger⟩

/-- A gated branch in front of another instruction, with every feature but the one it needs. -/
theorem decode_gated_jeqSbc2 :
    let lacking : Features := ⟨0xFFFFFFFB⟩
    let branch : Instruction := ⟨.jeqSbc2, [.immediate 1 4, .immediate 1 4], .short, 8⟩
    ¬lacking.Contains .tc161 ∧
      (standard .all).decode [0x9E, 0x11, 0x3C, 0x04] 8 = .ok branch ∧
      (standard lacking).decode [0x9E, 0x11, 0x3C, 0x04] 8 =
        .error (.rejected (.noTableMatch 0x043C119E .long)) ∧
      (standard .all).decode [0x9E, 0x11, 0x3C] 8 = .ok branch ∧
      (standard lacking).decode [0x9E, 0x11, 0x3C] 8 =
        .error (.rejected (.insufficientData 4 3)) ∧
      (standard .tc161).decode [0x9E, 0x11] 8 = .ok branch ∧
      (standard ⟨0x80000005⟩).decode [0x9E, 0x11] 8 = .ok branch := by
  intro lacking branch
  have hlacking : ¬lacking.Contains .tc161 := by decide
  have hfour : (standard .all).decode [0x9E, 0x11, 0x3C, 0x04] 8 = .ok branch := by rfl
  have hthree : (standard .all).decode [0x9E, 0x11, 0x3C] 8 = .ok branch := by rfl
  have htwo : (standard .tc161).decode [0x9E, 0x11] 8 = .ok branch := by rfl
  refine ⟨hlacking, hfour, ?_, hthree, ?_, htwo, ?_⟩
  · obtain ⟨w, hw, hgated⟩ :=
      ((decode_gated lacking _ 8).2.1 branch hfour (.inl rfl) hlacking).2 (by decide)
    cases hw
    exact hgated
  · exact ((decode_gated lacking _ 8).2.1 branch hthree (.inl rfl) hlacking).1 (by decide)
  · exact (decode_gated .tc161 _ 8).2.2 ⟨0x80000005⟩ (by decide) branch htwo

end Decoder

end TriCore
