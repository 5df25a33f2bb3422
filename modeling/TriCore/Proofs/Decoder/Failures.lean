import TriCore.Proofs.Chart.Mask
import TriCore.Proofs.Decoder.Standard
import TriCore.Proofs.Decoder.WidthSelector

/-!
# How decoding fails

Decoding fails if a word is missing or if no word is matched by its table. A decoder with the
architecture's parts fails in no other way: every candidate that its tables offer fits the word, all
registers of the candidate are declared, and each of them is in its bank. What goes wrong with the
short word is therefore never reported. If the long word is there, its own failure is, and otherwise
the report is that bytes are missing.

## Main definitions

* `Decision.Table.Matches` : a table offers a candidate for a word.
* `Decoder.Failure` : the ways in which the architecture's decoder fails for a byte string.

## Main results

* `Decoder.decode_eq_error_iff_fetch` : when decoding fails, for tables that read no field outside a
  word.
* `Decoder.decodeWord_eq_error_iff` : decoding a word fails exactly if its table does not match it.
* `Decoder.decode_eq_error_iff` : the failures of the architecture's decoder.
-/

namespace TriCore

open Decision

/-! ### Words that a table matches -/

/-- The table offers a candidate for the word. -/
def Decision.Table.Matches (t : Table) (w : Word) (features : Features) : Prop :=
  ∃ candidate, (t.walk w features accepting ()).1 = .ok candidate

/-- The table of a width matches the words that one of its patterns recognises. -/
theorem Chart.matches_ofWidth_iff {width : Width} {w : Word} {features : Features} :
    (Table.ofWidth width).Matches w features ↔ ∃ p ∈ patterns width, p.Recognises w features := by
  constructor
  · rintro ⟨candidate, hwalk⟩
    by_contra hnone
    have hunrecognised : ∀ p ∈ patterns width, ¬p.Recognises w features :=
      fun p hp hrecognises => hnone ⟨p, hp, hrecognises⟩
    rw [walk_of_not_recognises accepting () hunrecognised] at hwalk
    cases hwalk
  · rintro ⟨p, hp, hrecognises⟩
    exact ⟨p.candidate, congrArg Prod.fst (walk_of_recognises accepting () hp hrecognises)⟩

namespace Decoder

variable {features : Features} {bytes : List UInt8} {address : UInt64}

/-! ### Decoding words -/

/-- A word fails to be decoded exactly if its table does not match it, and this is what is
reported. -/
theorem decodeWord_eq_error_iff {w : Word} {halt : Halt} :
    (standard features).decodeWord w address = .error halt ↔
      ¬(Table.ofWidth w.width).Matches w features ∧
        halt = .rejected (.noTableMatch w.bits w.width) := by
  rw [Chart.matches_ofWidth_iff]
  by_cases h : ∃ p ∈ Chart.patterns w.width, p.Recognises w features
  · obtain ⟨p, hp, hrecognises⟩ := h
    simp only [decodeWord_of_recognises hp rfl hrecognises, reduceCtorEq, false_iff, not_and]
    exact fun hnone => absurd ⟨p, hp, hrecognises⟩ hnone
  · have hfind := Chart.find?_recognises_eq_none fun p hp hrecognises => h ⟨p, hp, hrecognises⟩
    simp only [decodeWord_standard, hfind, h, not_false_eq_true, true_and, Except.error.injEq,
      eq_comm]

theorem decodeWord_eq_error_iff_of_fetch {width : Width} {w : Word}
    (hw : Word.fetch width bytes = .ok w) {halt : Halt} :
    (standard features).decodeWord w address = .error halt ↔
      ¬(Table.ofWidth width).Matches w features ∧
        halt = .rejected (.noTableMatch w.bits width) := by
  obtain ⟨rfl, -⟩ := Word.fetch_eq_ok_iff.mp hw
  exact decodeWord_eq_error_iff

/-! ### Decoding bytes -/

/-- Decoding bytes fails if the short word is missing, or if it is not decoded and the long word is
missing or not decoded either. -/
theorem decode_eq_error_iff_fetch {d : Decoder} (hd : d.TablesInRange) {halt : Halt} :
    d.decode bytes address = .error halt ↔
      Word.fetch .short bytes = .error halt ∨
      ∃ short, Word.fetch .short bytes = .ok short ∧
        (∃ first, d.decodeWord short address = .error first) ∧
        (Word.fetch .long bytes = .error halt ∨
          ∃ long, Word.fetch .long bytes = .ok long ∧ d.decodeWord long address = .error halt) := by
  rw [decode_eq]
  cases Word.fetch .short bytes with
  | error halt' => simp
  | ok short =>
    rcases hfirst : d.decodeWord short address with (error | field) | i
    · cases Word.fetch .long bytes with
      | error halt' => simp [hfirst]
      | ok long => simp [hfirst]
    · exact absurd hfirst (decodeWord_ne_fault hd field)
    · simp [hfirst]

/-- The ways in which the architecture's decoder fails for a byte string. -/
inductive Failure (features : Features) (bytes : List UInt8) (address : UInt64) :
    DecodeError → Prop
  /-- There is no short word. -/
  | noShort (hlength : bytes.length < 2) :
      Failure features bytes address (.insufficientData 2 bytes.length)
  /-- There is a short word, which is not decoded, and no long word. -/
  | noLong {short : Word} (hlength : 2 ≤ bytes.length ∧ bytes.length < 4)
      (hshort : Word.fetch .short bytes = .ok short)
      (hfails : ∃ halt, (standard features).decodeWord short address = .error halt) :
      Failure features bytes address (.insufficientData 4 bytes.length)
  /-- There are both words, and neither is matched by the table of its width. -/
  | noMatch {short long : Word} (hlength : 4 ≤ bytes.length)
      (hshort : Word.fetch .short bytes = .ok short) (hlong : Word.fetch .long bytes = .ok long)
      (hnone : ¬Table.short.Matches short features) (hnone' : ¬Table.long.Matches long features) :
      Failure features bytes address (.noTableMatch long.bits .long)

theorem decode_eq_error_iff_failure {halt : Halt} :
    (standard features).decode bytes address = .error halt ↔
      ∃ error, halt = .rejected error ∧ Failure features bytes address error := by
  rw [decode_eq_error_iff_fetch (tablesInRange_standard features)]
  constructor
  · rintro (hmissing | ⟨short, hshort, hfails, hmissing | ⟨long, hlong, herror⟩⟩)
    · obtain ⟨hlength, rfl⟩ := Word.fetch_eq_error_iff.mp hmissing
      exact ⟨_, rfl, .noShort hlength⟩
    · obtain ⟨hlength, rfl⟩ := Word.fetch_eq_error_iff.mp hmissing
      exact ⟨_, rfl, .noLong ⟨Word.length_le_of_fetch_eq_ok hshort, hlength⟩ hshort hfails⟩
    · obtain ⟨first, hfirst⟩ := hfails
      obtain ⟨hnone, -⟩ := (decodeWord_eq_error_iff_of_fetch hshort).mp hfirst
      obtain ⟨hnone', rfl⟩ := (decodeWord_eq_error_iff_of_fetch hlong).mp herror
      exact ⟨_, rfl, .noMatch (Word.length_le_of_fetch_eq_ok hlong) hshort hlong hnone hnone'⟩
  · rintro ⟨error, rfl, hfailure⟩
    cases hfailure with
    | noShort hlength => exact .inl (Word.fetch_eq_error_iff.mpr ⟨hlength, rfl⟩)
    | noLong hlength hshort hfails =>
      exact .inr ⟨_, hshort, hfails, .inl (Word.fetch_eq_error_iff.mpr ⟨hlength.2, rfl⟩)⟩
    | noMatch _ hshort hlong hnone hnone' =>
      exact .inr ⟨_, hshort, ⟨_, (decodeWord_eq_error_iff_of_fetch hshort).mpr ⟨hnone, rfl⟩⟩,
        .inr ⟨_, hlong, (decodeWord_eq_error_iff_of_fetch hlong).mpr ⟨hnone', rfl⟩⟩⟩

/-- **The failures of the architecture's decoder.** With the architecture's parts and any features,
decoding bytes fails exactly in the ways listed: if there is no short word; if the short word is not
decoded and there is no long one; or if neither word is matched by its table, in which case the long
word is reported. Decoding a word fails exactly if its table does not match it, and a table matches
the words that one of its patterns recognises by their bits. Neither of the two reports a
contradiction of width and format, a register that is missing or one that is not declared, or
faults. -/
theorem decode_eq_error_iff (features : Features) (bytes : List UInt8) (address : UInt64) :
    (∀ halt, (standard features).decode bytes address = .error halt ↔
      ∃ error, halt = .rejected error ∧ Failure features bytes address error) ∧
    (∀ w halt, (standard features).decodeWord w address = .error halt ↔
      ¬(Table.ofWidth w.width).Matches w features ∧
        halt = .rejected (.noTableMatch w.bits w.width)) ∧
    (∀ width w, (Table.ofWidth width).Matches w features ↔
      ∃ p ∈ Chart.patterns width, p.Recognises w features) ∧
    ∀ halt, ((standard features).decode bytes address = .error halt ∨
        ∃ w, (standard features).decodeWord w address = .error halt) →
      (∀ width, halt ≠ .rejected (.widthMismatch width)) ∧
      (∀ cls number, halt ≠ .rejected (.invalidRegisterIndex cls number)) ∧
      (∀ slot, halt ≠ .rejected (.undeclaredRegister slot)) ∧
      ∀ field, halt ≠ .fault field := by
  refine ⟨fun halt => decode_eq_error_iff_failure, fun w halt => decodeWord_eq_error_iff,
    fun width w => Chart.matches_ofWidth_iff, fun halt hfails => ?_⟩
  have hcause : (∃ needed available, halt = .rejected (.insufficientData needed available)) ∨
      ∃ bits width, halt = .rejected (.noTableMatch bits width) := by
    rcases hfails with hdecode | ⟨w, hword⟩
    · obtain ⟨error, rfl, hfailure⟩ := decode_eq_error_iff_failure.mp hdecode
      cases hfailure with
      | noShort => exact .inl ⟨_, _, rfl⟩
      | noLong => exact .inl ⟨_, _, rfl⟩
      | noMatch => exact .inr ⟨_, _, rfl⟩
    · exact .inr ⟨_, _, (decodeWord_eq_error_iff.mp hword).2⟩
  rcases hcause with ⟨needed, available, rfl⟩ | ⟨bits, width, rfl⟩ <;> simp

/-- A store whose secondary opcode is not used is not recognised, and its first three and its first
byte are too few. The store whose secondary opcode is `0` is matched, so that nothing is reported
for its bytes. -/
theorem decode_unusedSecondary :
    let bytes : List UInt8 := [0x25, 0x00, 0x00, 0x04]
    (standard .all).decode bytes 0 = .error (.rejected (.noTableMatch 0x04000025 .long)) ∧
      (standard .all).decode (bytes.take 3) 0 = .error (.rejected (.insufficientData 4 3)) ∧
      (standard .all).decode (bytes.take 1) 0 = .error (.rejected (.insufficientData 2 1)) ∧
      Table.long.Matches (.long 0x00000025) .all ∧
      ∀ halt, (standard .all).decode [0x25, 0x00, 0x00, 0x00] 0 ≠ .error halt := by
  intro bytes
  have hnone {w : Word} (hw : ∀ p ∈ Chart.patterns w.width, ¬p.Recognises w .all) :
      ¬(Table.ofWidth w.width).Matches w .all := by
    rw [(decode_eq_error_iff .all bytes 0).2.2.1]
    rintro ⟨p, hp, hrecognises⟩
    exact hw p hp hrecognises
  have hshort : ¬Table.short.Matches (.short 0x0025) .all := hnone (by decide +kernel)
  have hlong : ¬Table.long.Matches (.long 0x04000025) .all := hnone (by decide +kernel)
  have hstore : Table.long.Matches (.long 0x00000025) .all :=
    ((decode_eq_error_iff .all bytes 0).2.2.1 .long _).mpr (by decide +kernel)
  have hfails : ∃ halt, (standard .all).decodeWord (.short 0x0025) 0 = .error halt :=
    ⟨_, ((decode_eq_error_iff .all bytes 0).2.1 (.short 0x0025) _).mpr ⟨hshort, rfl⟩⟩
  refine ⟨?_, ?_, ?_, hstore, fun halt hhalt => ?_⟩
  · exact ((decode_eq_error_iff .all bytes 0).1 _).mpr
      ⟨_, rfl, .noMatch (by decide) rfl rfl hshort hlong⟩
  · exact ((decode_eq_error_iff .all (bytes.take 3) 0).1 _).mpr
      ⟨_, rfl, .noLong (by decide) rfl hfails⟩
  · exact ((decode_eq_error_iff .all (bytes.take 1) 0).1 _).mpr ⟨_, rfl, .noShort (by decide)⟩
  · obtain ⟨error, -, hfailure⟩ := ((decode_eq_error_iff .all _ 0).1 halt).mp hhalt
    cases hfailure with
    | noShort hlength => exact absurd hlength (by decide)
    | noLong hlength => exact absurd hlength (by decide)
    | noMatch _ _ hfetch _ hnomatch =>
      cases hfetch
      exact hnomatch hstore

end Decoder

end TriCore
