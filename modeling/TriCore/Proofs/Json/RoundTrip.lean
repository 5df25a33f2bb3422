import Mathlib.Data.List.TakeDrop
import TriCore.Json.Reader
import TriCore.Json.Writer
import TriCore.Proofs.Text.Words

/-!
# Documents are read back

A document that is written is read back as it was, in either style. What is read from the front of a
text ends where the writer ended: a string at its quotation mark, a container at its bracket and a
number at whatever follows it, which is a comma, a bracket, a brace or a blank. Each call of the
reader consumes what the writer put down for it, so the length of a written document bounds how
deeply the calls nest. Numerals that are not natural numbers are kept as they were written and may
be anything; they are left out here.

## Main definitions

* `Json.Plain` : documents whose only numbers are natural.

## Main results

* `Json.readLiteral_literal`, `Json.readNumber_toDigits` : strings and numbers are read back.
* `Json.readValue_write` : a document is read back from the front of a text.
* `Json.parse?_compact`, `Json.parse?_pretty_append` : a whole text is read back.
* `Json.Plain.write_inj` : documents are known by their texts.
-/

namespace TriCore.Json

variable {style : Style} {depth fuel n : Nat} {c : Char} {cs ds rest : List Char}

/-- The numbers of a document are natural. -/
inductive Plain : Json → Prop
  | null : Plain .null
  | bool (b : Bool) : Plain (.bool b)
  | natural (n : Nat) : Plain (.natural n)
  | text (s : Option String) : Plain (.text s)
  | array {items : List Json} (h : ∀ item ∈ items, Plain item) : Plain (.array items)
  | object {entries : List (Option String × Json)} (h : ∀ entry ∈ entries, Plain entry.2) :
    Plain (.object entries)

theorem plain_record {entries : List (String × Json)} (h : ∀ entry ∈ entries, entry.2.Plain) :
    (record entries).Plain := by
  refine .object fun entry hentry => ?_
  obtain ⟨entry, hmem, rfl⟩ := List.mem_map.mp hentry
  exact h entry hmem

/-! ### Strings -/

theorem paddedDigits_two : ∀ n < 32, Text.paddedDigits 2 n =
    [Nat.digitChar (n / 16), Nat.digitChar (n % 16)] := by
  decide

/-- A control character is read back from its code. -/
theorem readPieces_code (hc : c.toNat < 32) (rest : List Char) :
    readPieces ('\\' :: 'u' :: '0' :: '0' :: (Text.paddedDigits 2 c.toNat ++ rest)) =
      (readPieces rest).map fun found => (.char c :: found.1, found.2) := by
  have hhigh : Text.digit? 16 (Nat.digitChar (c.toNat / 16)) = some (c.toNat / 16) :=
    Text.digit?_digitChar (by omega) (by omega)
  have hlow : Text.digit? 16 (Nat.digitChar (c.toNat % 16)) = some (c.toNat % 16) :=
    Text.digit?_digitChar (by omega) (by omega)
  have hzero : Text.digit? 16 '0' = some 0 := by decide
  have hcode : Piece.ofCode (16 * (c.toNat / 16) + c.toNat % 16) = .char c := by
    rw [Nat.div_add_mod, Piece.ofCode, if_neg (by omega), if_neg (by omega), Char.ofNat_toNat]
  simp only [paddedDigits_two c.toNat hc, List.cons_append, List.nil_append, readPieces,
    List.mapM_cons, List.mapM_nil, hzero, hhigh, hlow, Option.pure_def, Option.bind_eq_bind,
    Option.bind_some, List.foldl_cons, List.foldl_nil, Nat.mul_zero, Nat.zero_add, hcode]
  cases readPieces rest <;> rfl

/-- A character is read back from its escape of one letter. -/
theorem readPieces_backslash {letter : Char} (hletter : unescape letter = some c)
    (rest : List Char) : readPieces ('\\' :: letter :: rest) =
      (readPieces rest).map fun found => (.char c :: found.1, found.2) := by
  have hne : letter ≠ 'u' := by
    rintro rfl
    cases hletter
  rw [readPieces, hletter]
  · cases readPieces rest <;> rfl
  · exact fun _ _ _ _ _ h _ => hne h

/-- A character that is not escaped is read back. -/
theorem readPieces_cons (hquote : c ≠ '"') (hbackslash : c ≠ '\\') (hc : ¬ c.toNat < 32)
    (rest : List Char) : readPieces (c :: rest) =
      (readPieces rest).map fun found => (.char c :: found.1, found.2) := by
  rw [readPieces, if_neg hc]
  · cases readPieces rest <;> rfl
  · exact hquote
  · exact fun _ _ _ _ _ h _ => hbackslash h
  · exact fun _ _ h _ => hbackslash h

/-- A character is read back from its form within a string literal. -/
theorem readPieces_escape (c : Char) (rest : List Char) :
    readPieces (escape c ++ rest) =
      (readPieces rest).map fun found => (.char c :: found.1, found.2) := by
  unfold escape
  split
  case h_8 hquote hbackslash _ _ _ _ _ =>
    split
    case isTrue hc => exact readPieces_code hc rest
    case isFalse hc => exact readPieces_cons hquote hbackslash hc rest
  all_goals exact readPieces_backslash rfl rest

theorem readPieces_flatMap_escape (cs rest : List Char) :
    readPieces (cs.flatMap escape ++ '"' :: rest) = some (cs.map .char, rest) := by
  induction cs with
  | nil => simp [readPieces]
  | cons c cs ih =>
    rw [List.flatMap_cons, List.append_assoc, readPieces_escape, ih]
    rfl

theorem Piece.join_map_char (cs : List Char) : Piece.join (cs.map .char) = some cs := by
  induction cs with
  | nil => rfl
  | cons c cs ih => simp [Piece.join, ih]

/-- A string is read back from its literal, behind the opening quotation mark. -/
theorem readLiteral_literal (s : Option String) (rest : List Char) :
    ∃ cs, literal s ++ rest = '"' :: cs ∧ readLiteral cs = some (s, rest) := by
  cases s with
  | none => exact ⟨_, rfl, rfl⟩
  | some s =>
    refine ⟨s.toList.flatMap escape ++ '"' :: rest, by simp [literal], ?_⟩
    simp [readLiteral, readPieces_flatMap_escape, Piece.join_map_char]

/-! ### Numbers -/

/-- A number ends where these characters follow its digits. -/
def EndsNumber (cs : List Char) : Prop :=
  ∀ c ∈ cs.head?, c.isDigit = false ∧ c ≠ '.' ∧ c ≠ 'e' ∧ c ≠ 'E'

theorem readDigits_append (hcs : ∀ c ∈ cs, c.isDigit) (hne : cs ≠ []) (hrest : EndsNumber rest) :
    readDigits (cs ++ rest) = some (cs, rest) := by
  have htake : (cs ++ rest).takeWhile Char.isDigit = cs :=
    Text.takeWhile_append_of_head hcs fun c hc => (hrest c hc).1
  have hdrop : (cs ++ rest).dropWhile Char.isDigit = rest := by
    have happend := List.takeWhile_append_dropWhile (p := Char.isDigit) (l := cs ++ rest)
    rw [htake] at happend
    exact List.append_cancel_left happend
  rw [readDigits, List.span_eq_takeWhile_dropWhile, htake, hdrop]
  cases cs with
  | nil => exact absurd rfl hne
  | cons c cs => rfl

theorem isDigit_of_mem_toDigits (hc : c ∈ Nat.toDigits 10 n) : c.isDigit :=
  Nat.isDigit_of_mem_toDigits (by decide) (by decide) hc

/-- The digits of a number have no zero in front, unless they are that zero. -/
theorem readInteger_toDigits (n : Nat) (hrest : EndsNumber rest) :
    readInteger (Nat.toDigits 10 n ++ rest) = some (Nat.toDigits 10 n, rest) := by
  by_cases hn : n = 0
  · subst hn
    rfl
  · obtain ⟨d, cs, hd, hlt, heq⟩ := Text.exists_head_toDigits (by decide : 1 < 10) hn
    have hdigit : ∀ d < 10, d ≠ 0 → Nat.digitChar d ≠ '0' := by decide
    have hhead : Nat.digitChar d ≠ '0' := hdigit d hlt hd
    rw [readInteger]
    · exact readDigits_append (fun _ hc => isDigit_of_mem_toDigits hc) Nat.toDigits_ne_nil hrest
    · rw [heq]
      exact fun _ h => hhead (List.cons.inj h).1

theorem readFraction_of_endsNumber (hrest : EndsNumber rest) :
    readFraction rest = some ([], rest) := by
  rw [readFraction]
  rintro cs rfl
  exact (hrest '.' rfl).2.1 rfl

theorem readExponent_of_endsNumber (hrest : EndsNumber rest) :
    readExponent rest = some ([], rest) := by
  rw [readExponent]
  · rintro cs rfl
    exact (hrest 'e' rfl).2.2.1 rfl
  · rintro cs rfl
    exact (hrest 'E' rfl).2.2.2 rfl

/-- A natural number is read back from its digits. -/
theorem readNumber_toDigits (n : Nat) (hrest : EndsNumber rest) :
    readNumber (Nat.toDigits 10 n ++ rest) = some (.natural n, rest) := by
  have hunsigned : readUnsigned (Nat.toDigits 10 n ++ rest) =
      some ((Nat.toDigits 10 n, []), rest) := by
    simp [readUnsigned, readInteger_toDigits n hrest, readFraction_of_endsNumber hrest,
      readExponent_of_endsNumber hrest]
  rw [readNumber]
  · simp [hunsigned, Nat.ofDigitChars_toDigits]
  · intro cs h
    obtain ⟨c, ds, heq⟩ := List.exists_cons_of_ne_nil (Nat.toDigits_ne_nil (b := 10) (n := n))
    have hc : c.isDigit := isDigit_of_mem_toDigits (heq ▸ List.mem_cons_self)
    rw [heq] at h
    obtain rfl : c = '-' := (List.cons.inj h).1
    cases hc

/-! ### Gaps -/

theorem isGap_iff : isGap c = true ↔ c = ' ' ∨ c = '\t' ∨ c = '\n' ∨ c = '\r' := by
  simp only [isGap, Bool.or_eq_true, beq_iff_eq, or_assoc]

theorem isGap_of_mem_lineBreak (hc : c ∈ style.lineBreak depth) : isGap c = true := by
  cases style with
  | compact => cases hc
  | pretty =>
    rcases List.mem_cons.mp hc with rfl | hc
    · rfl
    · rw [List.eq_of_mem_replicate hc]
      rfl

theorem isGap_of_isDigit (hc : c.isDigit) : isGap c = false := by
  rw [Bool.eq_false_iff]
  intro hgap
  obtain rfl | rfl | rfl | rfl := isGap_iff.mp hgap <;> cases hc

theorem skipGap_lineBreak_append (style : Style) (depth : Nat) (cs : List Char) :
    skipGap (style.lineBreak depth ++ cs) = skipGap cs :=
  List.dropWhile_append_of_pos fun _ hc => isGap_of_mem_lineBreak hc

theorem skipGap_cons (hc : isGap c = false) (cs : List Char) : skipGap (c :: cs) = c :: cs :=
  List.dropWhile_cons_of_neg (by rw [hc]; decide)

/-- Behind a colon there is at most a blank. -/
theorem exists_colon (style : Style) :
    ∃ gap, style.colon = ':' :: gap ∧ ∀ cs, skipGap (gap ++ cs) = skipGap cs := by
  cases style with
  | compact => exact ⟨[], rfl, fun _ => rfl⟩
  | pretty => exact ⟨[' '], rfl, fun _ => rfl⟩

/-- Blanks before a document change nothing. -/
theorem readValue_eq_of_skipGap (h : skipGap cs = skipGap ds) (fuel : Nat) :
    readValue fuel cs = readValue fuel ds := by
  cases fuel with
  | zero => rfl
  | succ fuel => rw [readValue, readValue, h]

theorem readItems_eq_of_skipGap (h : skipGap cs = skipGap ds) (fuel : Nat) :
    readItems fuel cs = readItems fuel ds := by
  cases fuel with
  | zero => rfl
  | succ fuel => rw [readItems, readItems, readValue_eq_of_skipGap h]

theorem readEntries_eq_of_skipGap (h : skipGap cs = skipGap ds) (fuel : Nat) :
    readEntries fuel cs = readEntries fuel ds := by
  cases fuel with
  | zero => rfl
  | succ fuel => rw [readEntries, readEntries, h]

/-! ### What stands in front -/

theorem endsNumber_cons (hc : c.isDigit = false ∧ c ≠ '.' ∧ c ≠ 'e' ∧ c ≠ 'E') :
    EndsNumber (c :: cs) := fun _ h => Option.some.inj h ▸ hc

theorem endsNumber_lineBreak_append (style : Style) (depth : Nat) (hcs : EndsNumber cs) :
    EndsNumber (style.lineBreak depth ++ cs) := by
  cases style with
  | compact => exact hcs
  | pretty => exact endsNumber_cons (by decide)

theorem endsNumber_writeItems_append (style : Style) (depth : Nat) (items : List Json)
    (hcs : EndsNumber cs) :
    EndsNumber (writeItems style depth items ++ cs) := by
  cases items with
  | nil => exact hcs
  | cons item items =>
    rw [writeItems]
    exact endsNumber_cons (by decide)

theorem endsNumber_writeEntries_append (style : Style) (depth : Nat)
    (entries : List (Option String × Json)) (hcs : EndsNumber cs) :
    EndsNumber (writeEntries style depth entries ++ cs) := by
  cases entries with
  | nil => exact hcs
  | cons entry entries =>
    rw [writeEntries]
    exact endsNumber_cons (by decide)

theorem exists_head_literal (s : Option String) : ∃ cs, literal s = '"' :: cs := by
  cases s with
  | none => exact ⟨_, rfl⟩
  | some s => exact ⟨_, rfl⟩

/-- A document does not begin with a blank or with the end of an array. -/
theorem exists_head_write {j : Json} (hj : j.Plain) (style : Style) (depth : Nat) :
    ∃ c cs, write style depth j = c :: cs ∧ isGap c = false ∧ c ≠ ']' := by
  cases hj with
  | null => exact ⟨'n', _, by rw [write], by decide⟩
  | bool b =>
    cases b with
    | false => exact ⟨'f', _, by rw [write], by decide⟩
    | true => exact ⟨'t', _, by rw [write], by decide⟩
  | natural n =>
    obtain ⟨c, cs, heq⟩ := List.exists_cons_of_ne_nil (Nat.toDigits_ne_nil (b := 10) (n := n))
    have hc : c.isDigit := isDigit_of_mem_toDigits (heq ▸ List.mem_cons_self)
    refine ⟨c, cs, by rw [write, heq], ?_, ?_⟩
    · exact isGap_of_isDigit hc
    · rintro rfl
      cases hc
  | text s =>
    obtain ⟨cs, hcs⟩ := exists_head_literal s
    exact ⟨'"', cs, by rw [write, hcs], by decide⟩
  | @array items h =>
    cases items with
    | nil => exact ⟨'[', _, by rw [write], by decide⟩
    | cons item items => exact ⟨'[', _, by rw [write], by decide⟩
  | @object entries h =>
    cases entries with
    | nil => exact ⟨'{', _, by rw [write], by decide⟩
    | cons entry entries => exact ⟨'{', _, by rw [write], by decide⟩

/-! ### Documents -/

theorem readValue_quote (cs : List Char) (fuel : Nat) : readValue (fuel + 1) ('"' :: cs) =
    (readLiteral cs).map fun found => (.text found.1, found.2) := by
  rw [readValue, skipGap_cons (by decide)]
  rfl

theorem readValue_digit (hc : c.isDigit) (cs : List Char) (fuel : Nat) :
    readValue (fuel + 1) (c :: cs) = readNumber (c :: cs) := by
  rw [readValue, skipGap_cons (isGap_of_isDigit hc)]
  split
  all_goals first | rfl | (rename_i heq; obtain rfl := (List.cons.inj heq).1; cases hc)

theorem readValue_bracket (hcs : skipGap cs = c :: ds) (hc : c ≠ ']') (fuel : Nat) :
    readValue (fuel + 1) ('[' :: cs) =
      (readItems fuel (c :: ds)).map fun found => (.array found.1, found.2) := by
  rw [readValue, skipGap_cons (by decide)]
  simp only [hcs]
  split
  case h_1 heq => exact absurd (List.cons.inj heq).1 hc
  case h_2 => rfl

theorem readValue_brace (hcs : skipGap cs = c :: ds) (hc : c ≠ '}') (fuel : Nat) :
    readValue (fuel + 1) ('{' :: cs) =
      (readEntries fuel (c :: ds)).map fun found => (.object found.1, found.2) := by
  rw [readValue, skipGap_cons (by decide)]
  simp only [hcs]
  split
  case h_1 heq => exact absurd (List.cons.inj heq).1 hc
  case h_2 => rfl

-- The induction is on the number that the reader counts down. It is kept above the length of what
-- is still to be read.
mutual

/-- A document is read back from the front of a text. -/
theorem readValue_write (style : Style) : (fuel depth : Nat) → {j : Json} → j.Plain →
    (rest : List Char) →
    (write style depth j).length < fuel → EndsNumber rest →
    readValue fuel (write style depth j ++ rest) = some (j, rest)
  | 0, _, _, _, _, hfuel, _ => absurd hfuel (Nat.not_lt_zero _)
  | fuel + 1, depth, j, hj, rest, hfuel, hrest => by
    cases hj with
    | null =>
      rw [write]
      rfl
    | bool b =>
      cases b <;>
      · rw [write]
        rfl
    | natural n =>
      obtain ⟨c, cs, heq⟩ := List.exists_cons_of_ne_nil (Nat.toDigits_ne_nil (b := 10) (n := n))
      have hc : c.isDigit := isDigit_of_mem_toDigits (heq ▸ List.mem_cons_self)
      rw [write, heq, List.cons_append, readValue_digit hc, ← List.cons_append, ← heq,
        readNumber_toDigits n hrest]
    | text s =>
      obtain ⟨cs, hcs, hread⟩ := readLiteral_literal s rest
      rw [write, hcs, readValue_quote, hread]
      rfl
    | @array items h =>
      cases items with
      | nil =>
        rw [write]
        rfl
      | cons item items =>
        obtain ⟨hitem, hitems⟩ := List.forall_mem_cons.mp h
        obtain ⟨c, cs, hwrite, hgap, hc⟩ := exists_head_write hitem style (depth + 1)
        have hread := readItems_write style fuel depth hitem hitems rest (by
          simp only [write, List.length_cons, List.length_append, List.length_nil] at hfuel
          omega)
        rw [hwrite, List.cons_append] at hread
        rw [write]
        simp only [List.cons_append, List.append_assoc, hwrite, List.nil_append]
        rw [readValue_bracket (by rw [skipGap_lineBreak_append, skipGap_cons hgap]) hc, hread]
        rfl
    | @object entries h =>
      cases entries with
      | nil =>
        rw [write]
        rfl
      | cons entry entries =>
        obtain ⟨key, value⟩ := entry
        obtain ⟨hvalue, hentries⟩ := List.forall_mem_cons.mp h
        obtain ⟨cs, hkey⟩ := exists_head_literal key
        have hread := readEntries_write style fuel depth key value hvalue hentries rest (by
          simp only [write, List.length_cons, List.length_append, List.length_nil] at hfuel
          omega)
        rw [hkey, List.cons_append] at hread
        rw [write]
        simp only [List.cons_append, List.append_assoc, hkey, List.nil_append]
        rw [readValue_brace (by rw [skipGap_lineBreak_append, skipGap_cons (by decide)])
          (by decide), hread]
        rfl

/-- The items of an array are read back. -/
theorem readItems_write (style : Style) : (fuel depth : Nat) → {item : Json} → item.Plain →
    {items : List Json} → (∀ item ∈ items, item.Plain) → (rest : List Char) →
    (write style (depth + 1) item).length + (writeItems style depth items).length + 1 < fuel →
    readItems fuel (write style (depth + 1) item ++ (writeItems style depth items ++
      (style.lineBreak depth ++ ']' :: rest))) = some (item :: items, rest)
  | 0, _, _, _, _, _, _, hfuel => absurd hfuel (Nat.not_lt_zero _)
  | fuel + 1, depth, item, hitem, items, hitems, rest, hfuel => by
    have hend : EndsNumber (style.lineBreak depth ++ ']' :: rest) :=
      endsNumber_lineBreak_append style depth (endsNumber_cons (by decide))
    have hread := readValue_write style fuel (depth + 1) hitem _ (by omega)
      (endsNumber_writeItems_append style depth items hend)
    rw [readItems, hread]
    cases items with
    | nil =>
      rw [writeItems, List.nil_append]
      simp [skipGap_lineBreak_append, skipGap_cons (c := ']') (by decide)]
    | cons item' items =>
      obtain ⟨hitem', hitems'⟩ := List.forall_mem_cons.mp hitems
      have hrest := readItems_write style fuel depth hitem' hitems' rest (by
        simp only [writeItems, List.length_cons, List.length_append] at hfuel
        omega)
      rw [← readItems_eq_of_skipGap (skipGap_lineBreak_append style (depth + 1) _)] at hrest
      simp [writeItems, skipGap_cons (c := ',') (by decide), hrest]

/-- The entries of an object are read back. -/
theorem readEntries_write (style : Style) : (fuel depth : Nat) → (key : Option String) →
    (value : Json) → value.Plain → {entries : List (Option String × Json)} →
    (∀ entry ∈ entries, entry.2.Plain) → (rest : List Char) →
    (write style (depth + 1) value).length + (writeEntries style depth entries).length + 1 < fuel →
    readEntries fuel (literal key ++ (style.colon ++ (write style (depth + 1) value ++
      (writeEntries style depth entries ++ (style.lineBreak depth ++ '}' :: rest))))) =
        some ((key, value) :: entries, rest)
  | 0, _, _, _, _, _, _, _, hfuel => absurd hfuel (Nat.not_lt_zero _)
  | fuel + 1, depth, key, value, hvalue, entries, hentries, rest, hfuel => by
    have hend : EndsNumber (style.lineBreak depth ++ '}' :: rest) :=
      endsNumber_lineBreak_append style depth (endsNumber_cons (by decide))
    have hread := readValue_write style fuel (depth + 1) hvalue _ (by omega)
      (endsNumber_writeEntries_append style depth entries hend)
    obtain ⟨cs, hcs, hkey⟩ := readLiteral_literal key (style.colon ++
      (write style (depth + 1) value ++
        (writeEntries style depth entries ++ (style.lineBreak depth ++ '}' :: rest))))
    obtain ⟨gap, hcolon, hgap⟩ := exists_colon style
    rw [readEntries, hcs, skipGap_cons (by decide)]
    rw [← readValue_eq_of_skipGap (hgap _)] at hread
    simp only [hkey, hcolon, List.cons_append, skipGap_cons (c := ':') (by decide), hread,
      Option.bind_eq_bind, Option.bind_some]
    cases entries with
    | nil =>
      rw [writeEntries, List.nil_append]
      simp [skipGap_lineBreak_append, skipGap_cons (c := '}') (by decide)]
    | cons entry entries =>
      obtain ⟨key', value'⟩ := entry
      obtain ⟨hvalue', hentries'⟩ := List.forall_mem_cons.mp hentries
      have hrest := readEntries_write style fuel depth key' value' hvalue' hentries' rest (by
        simp only [writeEntries, List.length_cons, List.length_append] at hfuel
        omega)
      rw [← readEntries_eq_of_skipGap (skipGap_lineBreak_append style (depth + 1) _),
        hcolon, List.cons_append] at hrest
      simp [writeEntries, hcolon, skipGap_cons (c := ',') (by decide), hrest]

end

/-! ### Whole texts -/

/-- A written document is read back, whatever blanks stand behind it. -/
theorem parse?_write_append {j : Json} (hj : j.Plain) (style : Style)
    (hrest : ∀ c ∈ rest, isGap c) :
    parse? (String.ofList (write style 0 j ++ rest)) = some j := by
  have hend : EndsNumber rest := by
    intro c hc
    obtain rfl | rfl | rfl | rfl := isGap_iff.mp (hrest c (List.mem_of_mem_head? hc)) <;> decide
  have hskip : skipGap rest = [] := List.dropWhile_eq_nil_iff.mpr hrest
  have hread := readValue_write style (2 * (write style 0 j ++ rest).length + 2) 0 hj rest
    (by rw [List.length_append]; omega) hend
  simp only [parse?, String.toList_ofList, hread, Option.bind_eq_bind, Option.bind_some, hskip,
    List.isEmpty_nil, if_true]

theorem parse?_write {j : Json} (hj : j.Plain) (style : Style) :
    parse? (String.ofList (write style 0 j)) = some j := by
  simpa only [List.append_nil] using
    parse?_write_append hj style fun _ hc => absurd hc List.not_mem_nil

/-- A document on one line is read back. -/
theorem parse?_compact {j : Json} (hj : j.Plain) : parse? j.compact = some j :=
  parse?_write hj .compact

/-- A document spread over several lines is read back, whatever blanks stand behind it. -/
theorem parse?_pretty_append {j : Json} (hj : j.Plain) {gap : String}
    (hgap : ∀ c ∈ gap.toList, isGap c) : parse? (j.pretty ++ gap) = some j := by
  rw [← parse?_write_append hj .pretty hgap, String.ofList_append, String.ofList_toList, pretty]

/-- Documents are known by their texts. -/
theorem Plain.write_inj {j j' : Json} (hj : j.Plain) (hj' : j'.Plain) (style : Style) :
    String.ofList (write style 0 j) = String.ofList (write style 0 j') ↔ j = j' := by
  refine ⟨fun h => ?_, fun h => h ▸ rfl⟩
  have hread := parse?_write hj style
  rw [h, parse?_write hj'] at hread
  exact (Option.some.inj hread).symm

end TriCore.Json
