import Mathlib.Data.List.Forall2
import TriCore.Command.Run
import TriCore.Proofs.Listing.Message

/-!
# Lines of a listing

A line can be read back. Its address is a word and ends at the colon. What follows begins with a
capital letter or an angle bracket if no bytes are shown, and otherwise with the digits of a byte or
with the blank behind the last byte. The outcome is a name with operands or a failure in brackets.
Blanks are only ever trimmed where an instruction has no operands. So a line tells the address, the
bytes and the outcome of its entry, except for the width and the recorded address of an instruction.
No line contains a line end, so a listing is known line by line.

## Main definitions

* `Listing.SameOutcome`, `Listing.Entry.Alike` : outcomes and entries that are listed alike.
* `Listing.column`, `Listing.outcomeText` : what a line consists of behind the address.

## Main results

* `Listing.toList_line` : a line without its trimmed blanks.
* `Listing.line_eq_line_iff`, `Listing.text_eq_text_iff` : what a line and a listing tell.
* `Listing.lines_unambiguous` : lines, listings and the dumps of ranges are unambiguous.
-/

namespace TriCore

open Text

namespace Listing

variable {address address' : UInt64} {bytes bytes' : Option (List UInt8)}
  {result result' : Except Halt Instruction} {c : Char} {us vs : List Char}

/-! ### What a line tells -/

/-- Outcomes that are listed alike: instructions with the same opcode and operands, or the same
failure. -/
def SameOutcome : Except Halt Instruction → Except Halt Instruction → Prop
  | .ok i, .ok j => i.opcode = j.opcode ∧ i.operands = j.operands
  | .error halt, .error halt' => halt = halt'
  | _, _ => False

/-- Entries that are listed alike as lines of text. -/
structure Entry.Alike (e e' : Entry) : Prop where
  address : e.address = e'.address
  bytes : e.bytes = e'.bytes
  outcome : SameOutcome e.result e'.result

/-! ### Parts of a line -/

/-- The bytes of an entry in a line of text, each with a blank behind it, and one more blank. -/
def column : Option (List UInt8) → List Char
  | none => []
  | some bytes => (bytes.flatMap fun b => digitPair b ++ [' ']) ++ [' ']

/-- The operands of an instruction in a line of text, behind a blank if there are any. -/
def operandsText : List Operand → List Char
  | [] => []
  | o :: os => ' ' :: (o.text.toList ++ os.flatMap fun o => ", ".toList ++ o.text.toList)

/-- The outcome of an attempt in a line of text, without a blank behind it. -/
def outcomeText : Except Halt Instruction → List Char
  | .ok i => i.opcode.name.toList ++ operandsText i.operands
  | .error halt => '<' :: (halt.message.toList ++ ['>'])

theorem toList_byteColumn (bytes : List UInt8) :
    (byteColumn bytes).toList = column (some bytes) := by
  simp only [byteColumn, column, String.toList_append, String.toList_join, List.flatMap_map,
    toList_hexByte, String.reduceToList]

theorem toList_column (bytes : Option (List UInt8)) :
    ((bytes.map byteColumn).getD "").toList = column bytes := by
  cases bytes with
  | none => rfl
  | some bytes => exact toList_byteColumn bytes

theorem decimal_ne_nil (n : Nat) : (decimal n).toList ≠ [] := by
  rw [decimal, String.toList_ofList]
  exact Nat.toDigits_ne_nil

theorem operand_ne_nil (o : Operand) : o.text.toList ≠ [] := by
  cases o with
  | register cls r => simp [Operand.toList_text_register]
  | immediate value bits => simp [Operand.toList_text_immediate]

/-- The written form of an operand ends with a number. -/
theorem exists_operand_eq_append (o : Operand) :
    ∃ front n, o.text.toList = front ++ (decimal n).toList := by
  cases o with
  | register cls r =>
    exact ⟨_, r.id.toNat, by rw [Operand.toList_text_register, ← List.append_assoc]⟩
  | immediate value bits =>
    exact ⟨_, bits.toNat, by rw [Operand.toList_text_immediate, ← List.append_assoc]⟩

/-- Operands end with a number. -/
theorem exists_operands_eq_append (o : Operand) (os : List Operand) :
    ∃ front n, (o.text.toList ++ os.flatMap fun o => ", ".toList ++ o.text.toList) =
      front ++ (decimal n).toList := by
  induction os generalizing o with
  | nil =>
    obtain ⟨front, n, heq⟩ := exists_operand_eq_append o
    exact ⟨front, n, by rw [List.flatMap_nil, List.append_nil, heq]⟩
  | cons o' os ih =>
    obtain ⟨front, n, heq⟩ := ih o'
    refine ⟨o.text.toList ++ (", ".toList ++ front), n, ?_⟩
    rw [List.flatMap_cons, List.append_assoc, heq]
    simp only [List.append_assoc]

/-- What is trimmed from a line is the blank behind an opcode without operands. -/
theorem trimEnd_append_outcome (xs : List Char) (result : Except Halt Instruction) :
    trimEnd (xs ++ (outcome result).toList) = xs ++ outcomeText result := by
  cases result with
  | error halt =>
    simp only [outcome, outcomeText, String.toList_append, String.reduceToList, List.cons_append,
      List.nil_append]
    rw [← List.cons_append, ← List.append_assoc]
    exact trimEnd_append_of_not_isBlank (by decide)
  | ok i =>
    obtain ⟨opcode, operands, width, recorded⟩ := i
    simp only [outcome, outcomeText, String.toList_append, String.toList_intercalate,
      List.map_map]
    cases operands with
    | nil =>
      obtain ⟨c, cs, hname, -⟩ := opcode.exists_head_name
      have hne : opcode.name.toList ≠ [] := by simp [hname]
      simp only [List.map_nil, List.intercalate_nil, List.append_nil, operandsText,
        String.reduceToList]
      rw [← List.append_assoc, trimEnd_append_blank (by decide),
        trimEnd_append_word opcode.isWord_name hne]
    | cons o os =>
      have hoperands : ", ".toList.intercalate ((o :: os).map fun o => o.text.toList) =
          o.text.toList ++ os.flatMap fun o => ", ".toList ++ o.text.toList :=
        Delimited.intercalate_cons o os
      obtain ⟨front, n, heq⟩ := exists_operands_eq_append o os
      simp only [operandsText]
      change trimEnd (xs ++ (opcode.name.toList ++ " ".toList ++
        ", ".toList.intercalate ((o :: os).map fun o => o.text.toList))) = _
      rw [hoperands, heq, ← List.append_assoc,
        ← List.append_assoc, trimEnd_append_word (isWord_decimal n) (decimal_ne_nil n)]
      simp

/-- A line without the blanks that are trimmed from it. -/
theorem toList_line (address : UInt64) (bytes : Option (List UInt8))
    (result : Except Halt Instruction) :
    (line address bytes result).toList = (paddedHex 8 address.toNat).toList ++
      (": ".toList ++ (column bytes ++ outcomeText result)) := by
  have htrim := trimEnd_append_outcome
    ((paddedHex 8 address.toNat).toList ++ (": ".toList ++ column bytes)) result
  simpa only [line, String.toList_ofList, String.toList_append, toList_column,
    List.append_assoc] using htrim

/-! ### Taking a line apart -/

/-- The characters that an outcome begins with. -/
def Opens (c : Char) : Prop := c.isUpper = true ∨ c = '<'

theorem exists_head_outcomeText (result : Except Halt Instruction) :
    ∃ c cs, outcomeText result = c :: cs ∧ Opens c := by
  cases result with
  | ok i =>
    obtain ⟨c, cs, hname, hc⟩ := i.opcode.exists_head_name
    exact ⟨c, cs ++ operandsText i.operands, by rw [outcomeText, hname, List.cons_append], .inl hc⟩
  | error halt => exact ⟨'<', _, rfl, .inr rfl⟩

theorem not_opens_blank : ¬ Opens ' ' := by
  unfold Opens
  decide

theorem not_opens_digitChar : ∀ d < 16, ¬ Opens (Nat.digitChar d) := by
  unfold Opens
  decide

/-- Bytes that are shown begin with a character that no outcome begins with. -/
theorem exists_head_column (bytes : List UInt8) :
    ∃ c cs, column (some bytes) = c :: cs ∧ ¬ Opens c := by
  cases bytes with
  | nil => exact ⟨' ', [], rfl, not_opens_blank⟩
  | cons b bytes =>
    have hb : b.toNat / 16 < 16 := by
      have := b.toNat_lt
      omega
    refine ⟨Nat.digitChar (b.toNat / 16), Nat.digitChar (b.toNat % 16) :: ' ' ::
      column (some bytes), ?_, not_opens_digitChar _ hb⟩
    rw [column, List.flatMap_cons]
    rfl

/-- Digits of bytes never begin with a blank. -/
theorem flatMap_digitPair_cons_ne (b : UInt8) (bytes : List UInt8) :
    ' ' :: us ≠ ((b :: bytes).flatMap fun b => digitPair b ++ [' ']) ++ vs := by
  intro h
  rw [List.flatMap_cons] at h
  have hhead : ' ' = Nat.digitChar (b.toNat / 16) := (List.cons.inj h).1
  have hb : b.toNat / 16 < 16 := by
    have := b.toNat_lt
    omega
  have hdigit := digitValue?_digitChar _ hb
  rw [← hhead] at hdigit
  cases hdigit

theorem flatMap_digitPair_append_inj {bytes bytes' : List UInt8}
    (h : (bytes.flatMap fun b => digitPair b ++ [' ']) ++ ' ' :: us =
      (bytes'.flatMap fun b => digitPair b ++ [' ']) ++ ' ' :: vs) :
    bytes = bytes' ∧ us = vs := by
  induction bytes generalizing bytes' with
  | nil =>
    cases bytes' with
    | nil => exact ⟨rfl, List.tail_eq_of_cons_eq h⟩
    | cons b bytes' => exact absurd h (flatMap_digitPair_cons_ne b bytes')
  | cons b bytes ih =>
    cases bytes' with
    | nil => exact absurd h.symm (flatMap_digitPair_cons_ne b bytes)
    | cons b' bytes' =>
      simp only [List.flatMap_cons, List.append_assoc, List.singleton_append] at h
      obtain ⟨hb, hrest⟩ := (isWord_digitPair b).append_inj (isWord_digitPair b')
        (endsWord_cons (by decide)) (endsWord_cons (by decide)) h
      obtain ⟨rfl, rfl⟩ := ih (List.tail_eq_of_cons_eq hrest)
      exact ⟨by rw [digitPair_injective hb], rfl⟩

/-- The bytes of a line are taken off the front of what follows the address. -/
theorem column_append_inj (hus : ∃ c cs, us = c :: cs ∧ Opens c)
    (hvs : ∃ c cs, vs = c :: cs ∧ Opens c) (h : column bytes ++ us = column bytes' ++ vs) :
    bytes = bytes' ∧ us = vs := by
  -- Where one entry shows bytes and the other does not, the first characters differ.
  have hdiffer {bytes : List UInt8} {us vs : List Char} (hus : ∃ c cs, us = c :: cs ∧ Opens c) :
      us ≠ column (some bytes) ++ vs := by
    obtain ⟨c, cs, rfl, hc⟩ := hus
    obtain ⟨d, ds, hcolumn, hd⟩ := exists_head_column bytes
    rw [hcolumn]
    exact fun h => hd ((List.cons.inj h).1 ▸ hc)
  cases bytes with
  | none =>
    cases bytes' with
    | none => exact ⟨rfl, h⟩
    | some bytes' => exact absurd h (hdiffer hus)
  | some bytes =>
    cases bytes' with
    | none => exact absurd h.symm (hdiffer hvs)
    | some bytes' =>
      simp only [column, List.append_assoc, List.singleton_append] at h
      obtain ⟨rfl, rfl⟩ := flatMap_digitPair_append_inj h
      exact ⟨rfl, rfl⟩

theorem endsWord_operandsText (os : List Operand) : EndsWord (operandsText os) := by
  cases os with
  | nil => exact endsWord_nil
  | cons o os => exact endsWord_cons (by decide)

theorem operandsText_injective : Function.Injective operandsText := by
  intro os os' h
  cases os with
  | nil =>
    cases os' with
    | nil => rfl
    | cons o' os' => cases h
  | cons o os =>
    cases os' with
    | nil => cases h
    | cons o' os' =>
      have hsep : EndsWord ", ".toList := endsWord_of_head? (c := ',') (by simp) (by decide)
      simp only [operandsText, List.cons.injEq, true_and] at h
      refine Operand.delimited_text.intercalate_injective operand_ne_nil hsep (by simp) ?_
      simp only
      rw [Delimited.intercalate_cons, Delimited.intercalate_cons, h]

/-- An instruction is not mistaken for a failure. -/
theorem outcomeText_ok_ne_error (i : Instruction) (halt : Halt) :
    outcomeText (.ok i) ≠ outcomeText (.error halt) := by
  intro h
  obtain ⟨c, cs, hname, hc⟩ := i.opcode.exists_head_name
  rw [outcomeText, outcomeText, hname] at h
  have hhead : c = '<' := (List.cons.inj h).1
  rw [hhead] at hc
  cases hc

theorem outcomeText_eq_iff : outcomeText result = outcomeText result' ↔
    SameOutcome result result' := by
  cases result with
  | ok i =>
    cases result' with
    | ok j =>
      constructor
      · intro h
        obtain ⟨hopcode, hoperands⟩ := Opcode.delimited_name i.opcode j.opcode _ _
          (endsWord_operandsText i.operands) (endsWord_operandsText j.operands) h
        exact ⟨hopcode, operandsText_injective hoperands⟩
      · rintro ⟨hopcode, hoperands⟩
        simp only [outcomeText, hopcode, hoperands]
    | error halt => exact iff_of_false (outcomeText_ok_ne_error i halt) id
  | error halt =>
    cases result' with
    | ok j => exact iff_of_false (outcomeText_ok_ne_error j halt).symm id
    | error halt' =>
      constructor
      · intro h
        have hmessage := List.append_cancel_right (List.tail_eq_of_cons_eq h)
        exact Halt.message_injective (String.toList_inj.mp hmessage)
      · intro h
        rw [show halt = halt' from h]

/-- A line tells the address, the bytes that are shown and the outcome, except for the width and
the recorded address of an instruction. -/
theorem line_eq_line_iff : line address bytes result = line address' bytes' result' ↔
    address = address' ∧ bytes = bytes' ∧ SameOutcome result result' := by
  rw [← String.toList_inj, toList_line, toList_line]
  constructor
  · intro h
    have hcolon {cs : List Char} : EndsWord (": ".toList ++ cs) :=
      Delimited.endsWord_append (endsWord_of_head? (c := ':') (by simp) (by decide)) (by simp)
    obtain ⟨haddress, hrest⟩ := delimited_paddedHex 8 _ _ _ _ hcolon hcolon h
    obtain ⟨hbytes, houtcome⟩ := column_append_inj (exists_head_outcomeText result)
      (exists_head_outcomeText result') (List.append_cancel_left hrest)
    exact ⟨UInt64.toNat_inj.mp haddress, hbytes, outcomeText_eq_iff.mp houtcome⟩
  · rintro ⟨rfl, rfl, houtcome⟩
    rw [outcomeText_eq_iff.mpr houtcome]

/-! ### Whole listings -/

theorem newline_not_mem_column (bytes : Option (List UInt8)) : '\n' ∉ column bytes := by
  cases bytes with
  | none => exact List.not_mem_nil
  | some bytes =>
    simp [column, (isWord_digitPair _).newline_not_mem]

theorem newline_not_mem_outcomeText (result : Except Halt Instruction) :
    '\n' ∉ outcomeText result := by
  cases result with
  | error halt => simp [outcomeText, halt.newline_not_mem_message]
  | ok i =>
    have hname := i.opcode.isWord_name.newline_not_mem
    cases hoperands : i.operands with
    | nil => simp [outcomeText, hoperands, operandsText, hname]
    | cons o os => simp [outcomeText, hoperands, operandsText, hname, Operand.newline_not_mem_text]

theorem newline_not_mem_line (address : UInt64) (bytes : Option (List UInt8))
    (result : Except Halt Instruction) : '\n' ∉ (line address bytes result).toList := by
  rw [toList_line]
  simp [(isWord_paddedHex 8 address.toNat).newline_not_mem, newline_not_mem_column,
    newline_not_mem_outcomeText]

theorem Entry.line_eq_iff {e e' : Entry} : e.line = e'.line ↔ e.Alike e' := by
  constructor
  · intro h
    obtain ⟨haddress, hbytes, houtcome⟩ := line_eq_line_iff.mp h
    exact ⟨haddress, hbytes, houtcome⟩
  · rintro ⟨haddress, hbytes, houtcome⟩
    exact line_eq_line_iff.mpr ⟨haddress, hbytes, houtcome⟩

theorem toList_text (es : List Entry) :
    (text es).toList = es.flatMap fun e => e.line.toList ++ ['\n'] := by
  simp [text, String.toList_join, List.flatMap_map]

/-- A listing tells what the lines of its entries tell. -/
theorem text_eq_text_iff {es es' : List Entry} :
    text es = text es' ↔ List.Forall₂ Entry.Alike es es' := by
  have hsame : List.Forall₂ Entry.Alike es es' ↔
      es.map (·.line.toList) = es'.map (·.line.toList) := by
    rw [← List.forall₂_eq_eq_eq, List.forall₂_map_left_iff, List.forall₂_map_right_iff]
    simp only [String.toList_inj, Entry.line_eq_iff]
  rw [hsame, ← String.toList_inj, toList_text, toList_text]
  constructor
  · exact fun h => flatMap_lines_injective
      (fun e : Entry => newline_not_mem_line e.address e.bytes e.result) h
  · intro h
    have hflat (es : List Entry) : (es.flatMap fun e => e.line.toList ++ ['\n']) =
        (es.map (·.line.toList)).flatMap (· ++ ['\n']) := by
      rw [List.flatMap_map]
    rw [hflat, hflat, h]

/-- Two ranges that are listed alike have the same attempts, except for the width and the recorded
address of an instruction. -/
theorem attempts_of_rangeText_eq {image image' : Image} {features features' : Features}
    {r r' : Command.Range} {start start' : UInt64} {window window' : List UInt8}
    (htext : r.form = .text) (htext' : r'.form = .text)
    (hwindow : Command.rangeWindow image r = .ok (start, window))
    (hwindow' : Command.rangeWindow image' r' = .ok (start', window'))
    (h : Command.rangeText image features r = Command.rangeText image' features' r') :
    List.Forall₂ (fun a a' : Attempt => a.address = a'.address ∧ SameOutcome a.result a'.result)
      ((Decoder.standard features).sweep window start)
      ((Decoder.standard features').sweep window' start') := by
  have hentries {image : Image} {features : Features} {r : Command.Range} {start : UInt64}
      {window : List UInt8} (htext : r.form = .text)
      (hwindow : Command.rangeWindow image r = .ok (start, window)) :
      Command.rangeText image features r = .ok (text (((Decoder.standard features).sweep window
        start).map (Command.entry r.showBytes start window))) := by
    simp only [Command.rangeText, Command.rangeEntries, hwindow, htext]
    rfl
  rw [hentries htext hwindow, hentries htext' hwindow', Except.ok.injEq, text_eq_text_iff,
    List.forall₂_map_left_iff, List.forall₂_map_right_iff] at h
  exact h.imp fun a a' halike => ⟨halike.address, halike.outcome⟩

/-- No line contains a line end. A line tells the address, the bytes that are shown and the outcome,
except for the width and the recorded address of an instruction. A listing tells as much of all its
entries, and the listing of a range of all the attempts over it. -/
theorem lines_unambiguous :
    (∀ address bytes result, '\n' ∉ (line address bytes result).toList) ∧
    (∀ address address' bytes bytes' result result',
      line address bytes result = line address' bytes' result' ↔
        address = address' ∧ bytes = bytes' ∧ SameOutcome result result') ∧
    (∀ es es' : List Entry, text es = text es' ↔ List.Forall₂ Entry.Alike es es') ∧
    ∀ (image image' : Image) (features features' : Features) (r r' : Command.Range)
      (start start' : UInt64) (window window' : List UInt8),
      r.form = .text → r'.form = .text →
      Command.rangeWindow image r = .ok (start, window) →
      Command.rangeWindow image' r' = .ok (start', window') →
      Command.rangeText image features r = Command.rangeText image' features' r' →
      List.Forall₂ (fun a a' : Attempt => a.address = a'.address ∧ SameOutcome a.result a'.result)
        ((Decoder.standard features).sweep window start)
        ((Decoder.standard features').sweep window' start') := by
  refine ⟨newline_not_mem_line, fun _ _ _ _ _ _ => line_eq_line_iff, fun _ _ => text_eq_text_iff,
    ?_⟩
  intro image image' features features' r r' start start' window window' htext htext' hwindow
    hwindow' h
  exact attempts_of_rangeText_eq htext htext' hwindow hwindow' h

/-- An image of two bytes at the address `256`. -/
def twoBytes : Image := ⟨[⟨"code", 256, [0x00, 0x90], "r-x", "raw"⟩]⟩

/-- The range of the two bytes, with its start written as `start`. -/
def twoByteRange (start : String) : Command.Range := ⟨start, "258", false, .text, none⟩

/-- A range is listed alike however its start is written. -/
theorem lines_unambiguous_twoBytes :
    Command.rangeText twoBytes .all (twoByteRange "256") =
        Command.rangeText twoBytes .all (twoByteRange "0x100") ∧
      List.Forall₂ (fun a a' : Attempt => a.address = a'.address ∧ SameOutcome a.result a'.result)
        ((Decoder.standard .all).sweep [0x00, 0x90] 256)
        ((Decoder.standard .all).sweep [0x00, 0x90] 256) := by
  have hdecimal : Command.rangeWindow twoBytes (twoByteRange "256") = .ok (256, [0x00, 0x90]) := by
    rfl
  have hhex : Command.rangeWindow twoBytes (twoByteRange "0x100") = .ok (256, [0x00, 0x90]) := by
    rfl
  have htext : Command.rangeText twoBytes .all (twoByteRange "256") =
      Command.rangeText twoBytes .all (twoByteRange "0x100") := by
    simp only [Command.rangeText, Command.rangeEntries, hdecimal, hhex]
    rfl
  exact ⟨htext, lines_unambiguous.2.2.2 twoBytes twoBytes .all .all (twoByteRange "256")
    (twoByteRange "0x100") 256 256 _ _ rfl rfl hdecimal hhex htext⟩

end Listing

end TriCore
