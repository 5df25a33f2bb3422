import Mathlib.Data.Nat.Digits.Defs
import TriCore.Proofs.Text.Pieces
import TriCore.Proofs.Text.Words

/-!
# Which texts are numbers

A numeral is a plus sign or none and then one digit or more, in positional notation. Digits above
nine are letters of either case, and zeros may stand in front. Such a text is read as the number
that it denotes, if that is below the limit, and no other text is read as a number at all. While a
numeral is read the value grows with every digit. So if some digits reach the limit, the whole
number does, and what is refused as too large is too large.

## Main definitions

* `Text.IsDigit`, `Text.Spells` : digits, and the number that they denote side by side.
* `Text.IsNumeral` : the number that a text denotes.

## Main results

* `Text.readDigits_of_forall₂` : how digits are read.
* `Text.readNumeral_eq_ok_iff` : which texts are read, and as which numbers.
* `Text.isNumeral_zeros_toDigits` : the digits of a number, with zeros before them.
-/

namespace TriCore.Text

variable {base limit value n m d : Nat} {c : Char} {cs : List Char} {ds : List Nat}

/-! ### Digits -/

/-- A character is the digit of a base that has the given value: a figure or a letter of either
case. -/
def IsDigit (base : Nat) (c : Char) (d : Nat) : Prop :=
  d < base ∧ (c = Nat.digitChar d ∨ c = (Nat.digitChar d).toUpper)

theorem digitValue?_toUpper_digitChar :
    ∀ d < 16, digitValue? (Nat.digitChar d).toUpper = some d := by decide

theorem digitChar_of_figure : ∀ d < 10, Char.ofNat (d + 48) = Nat.digitChar d := by decide

theorem digitChar_of_small : ∀ d < 6, Char.ofNat (d + 97) = Nat.digitChar (d + 10) := by decide

theorem digitChar_of_capital :
    ∀ d < 6, Char.ofNat (d + 65) = (Nat.digitChar (d + 10)).toUpper := by decide

/-- Of the letters and figures below sixteen there are only the digits in either case. -/
theorem eq_digitChar_of_digitValue? (h : digitValue? c = some d) (hd : d < 16) :
    c = Nat.digitChar d ∨ c = (Nat.digitChar d).toUpper := by
  have hchar {k first : Nat} (hk : c.toNat - first = k) (hle : first ≤ c.toNat) :
      c = Char.ofNat (k + first) := by
    rw [← hk, Nat.sub_add_cancel hle, Char.ofNat_toNat]
  unfold digitValue? at h
  split_ifs at h with hfigure hsmall hcapital
  · obtain ⟨hle, hge⟩ : 48 ≤ c.toNat ∧ c.toNat ≤ 57 := hfigure
    have hvalue : c.toNat - 48 = d := Option.some.inj h
    exact .inl ((hchar hvalue hle).trans (digitChar_of_figure d (by omega)))
  · obtain ⟨hle, hge⟩ : 97 ≤ c.toNat ∧ c.toNat ≤ 122 := hsmall
    have hvalue : c.toNat - 97 + 10 = d := Option.some.inj h
    subst hvalue
    exact .inl ((hchar rfl hle).trans (digitChar_of_small _ (by omega)))
  · obtain ⟨hle, hge⟩ : 65 ≤ c.toNat ∧ c.toNat ≤ 90 := hcapital
    have hvalue : c.toNat - 65 + 10 = d := Option.some.inj h
    subst hvalue
    exact .inr ((hchar rfl hle).trans (digitChar_of_capital _ (by omega)))

theorem digit?_eq_some_iff (hbase : base ≤ 16) : digit? base c = some d ↔ IsDigit base c d := by
  rw [digit?, Option.filter_eq_some_iff, decide_eq_true_eq]
  constructor
  · rintro ⟨hvalue, hd⟩
    exact ⟨hd, eq_digitChar_of_digitValue? hvalue (by omega)⟩
  · rintro ⟨hd, rfl | rfl⟩
    · exact ⟨digitValue?_digitChar d (by omega), hd⟩
    · exact ⟨digitValue?_toUpper_digitChar d (by omega), hd⟩

/-- A digit of a base is a letter or a figure. -/
theorem isSome_digitValue?_of_digit? (h : (digit? base c).isSome) : (digitValue? c).isSome := by
  obtain ⟨d, hd⟩ := Option.isSome_iff_exists.mp h
  rw [digit?, Option.filter_eq_some_iff] at hd
  exact Option.isSome_iff_exists.mpr ⟨d, hd.1⟩

/-! ### Digits side by side -/

/-- The characters are digits of a base and denote a number in positional notation. -/
def Spells (base : Nat) (cs : List Char) (n : Nat) : Prop :=
  ∃ ds, List.Forall₂ (IsDigit base) cs ds ∧ Nat.ofDigits base ds.reverse = n

/-- Digits are read as the number that they denote behind what is read already, if that number is
below the limit. -/
theorem readDigits_of_forall₂ (hpos : 0 < base) (hbase : base ≤ 16) (hvalue : value < limit)
    (h : List.Forall₂ (IsDigit base) cs ds) :
    readDigits base limit value cs =
      if value * base ^ ds.length + Nat.ofDigits base ds.reverse < limit then
        .ok (value * base ^ ds.length + Nat.ofDigits base ds.reverse)
      else .error .tooLarge := by
  induction h generalizing value with
  | nil => simp [readDigits, hvalue]
  | @cons c d cs ds hc hcs ih =>
    have htotal : value * base ^ (d :: ds).length + Nat.ofDigits base (d :: ds).reverse =
        (value * base + d) * base ^ ds.length + Nat.ofDigits base ds.reverse := by
      rw [List.length_cons, List.reverse_cons, Nat.ofDigits_append, Nat.ofDigits_singleton,
        List.length_reverse]
      ring
    rw [htotal, readDigits, (digit?_eq_some_iff hbase).mpr hc]
    by_cases hnext : value * base + d < limit
    · simp only [hnext, if_true]
      exact ih hnext
    · -- The digits behind this one do not make the value smaller.
      have hle : value * base + d ≤ (value * base + d) * base ^ ds.length :=
        Nat.le_mul_of_pos_right _ (Nat.pow_pos hpos)
      simp only [hnext, if_false]
      rw [if_neg (by omega)]

theorem forall₂_of_readDigits_eq_ok (hbase : base ≤ 16)
    (h : readDigits base limit value cs = .ok n) :
    ∃ ds, List.Forall₂ (IsDigit base) cs ds := by
  induction cs generalizing value with
  | nil => exact ⟨[], .nil⟩
  | cons c cs ih =>
    rw [readDigits] at h
    cases hdigit : digit? base c with
    | none => simp only [hdigit, reduceCtorEq] at h
    | some d =>
      simp only [hdigit] at h
      split_ifs at h with hnext
      obtain ⟨ds, hds⟩ := ih h
      exact ⟨d :: ds, .cons ((digit?_eq_some_iff hbase).mp hdigit) hds⟩

theorem readDigits_eq_ok_iff (hpos : 0 < base) (hbase : base ≤ 16) (hlimit : 0 < limit) :
    readDigits base limit 0 cs = .ok n ↔ Spells base cs n ∧ n < limit := by
  constructor
  · intro h
    obtain ⟨ds, hds⟩ := forall₂_of_readDigits_eq_ok hbase h
    rw [readDigits_of_forall₂ hpos hbase hlimit hds, Nat.zero_mul, Nat.zero_add] at h
    split_ifs at h with hlt
    obtain rfl := Except.ok.inj h
    exact ⟨⟨ds, hds, rfl⟩, hlt⟩
  · rintro ⟨⟨ds, hds, rfl⟩, hlt⟩
    rw [readDigits_of_forall₂ hpos hbase hlimit hds, Nat.zero_mul, Nat.zero_add, if_pos hlt]

theorem Spells.forall_mem (hbase : base ≤ 16) (h : Spells base cs n) :
    ∀ c ∈ cs, (digit? base c).isSome := by
  obtain ⟨ds, hds, -⟩ := h
  induction hds with
  | nil => exact fun _ hc => absurd hc List.not_mem_nil
  | @cons _ d _ _ hd _ ih =>
    have hdigit := Option.isSome_iff_exists.mpr ⟨d, (digit?_eq_some_iff hbase).mpr hd⟩
    exact List.forall_mem_cons.mpr ⟨hdigit, ih⟩

/-! ### Numerals -/

/-- A text denotes a number in a base: it is a plus sign or none and then one digit or more. -/
def IsNumeral (base : Nat) (cs : List Char) (n : Nat) : Prop :=
  ∃ digits, (cs = digits ∨ cs = '+' :: digits) ∧ digits ≠ [] ∧ Spells base digits n

theorem readNumeral_plus (hne : cs ≠ []) :
    readNumeral base limit ('+' :: cs) = readDigits base limit 0 cs := by
  cases cs with
  | nil => exact absurd rfl hne
  | cons c cs => rfl

theorem readNumeral_of_head (hc : c ≠ '+') :
    readNumeral base limit (c :: cs) = readDigits base limit 0 (c :: cs) := by
  rw [readNumeral]
  · exact fun h => List.cons_ne_nil _ _ h
  · exact fun h => hc (List.cons.inj h).1
  · exact fun _ h => hc (List.cons.inj h).1

/-- A numeral is read as the number that it denotes, if that is below the limit, and else refused as
too large. -/
theorem readNumeral_of_isNumeral (hpos : 0 < base) (hbase : base ≤ 16) (hlimit : 0 < limit)
    (h : IsNumeral base cs n) :
    readNumeral base limit cs = if n < limit then .ok n else .error .tooLarge := by
  obtain ⟨digits, hcs, hne, hspells⟩ := h
  have hread : readNumeral base limit cs = readDigits base limit 0 digits := by
    rcases hcs with rfl | rfl
    · obtain ⟨c, rest, rfl⟩ := List.exists_cons_of_ne_nil hne
      refine readNumeral_of_head ?_
      rintro rfl
      cases hspells.forall_mem hbase '+' List.mem_cons_self
    · exact readNumeral_plus hne
  obtain ⟨ds, hds, rfl⟩ := hspells
  rw [hread, readDigits_of_forall₂ hpos hbase hlimit hds, Nat.zero_mul, Nat.zero_add]

/-- A text is read as a number exactly if it is a numeral that denotes this number, and the number
is below the limit. -/
theorem readNumeral_eq_ok_iff (hpos : 0 < base) (hbase : base ≤ 16) (hlimit : 0 < limit) :
    readNumeral base limit cs = .ok n ↔ IsNumeral base cs n ∧ n < limit := by
  constructor
  · intro h
    rcases cs with - | ⟨c, cs⟩
    · cases h
    · by_cases hc : c = '+'
      · subst hc
        have hne : cs ≠ [] := by
          rintro rfl
          cases h
        rw [readNumeral_plus hne] at h
        obtain ⟨hspells, hlt⟩ := (readDigits_eq_ok_iff hpos hbase hlimit).mp h
        exact ⟨⟨cs, .inr rfl, hne, hspells⟩, hlt⟩
      · rw [readNumeral_of_head hc] at h
        obtain ⟨hspells, hlt⟩ := (readDigits_eq_ok_iff hpos hbase hlimit).mp h
        exact ⟨⟨c :: cs, .inl rfl, List.cons_ne_nil c cs, hspells⟩, hlt⟩
  · rintro ⟨hnumeral, hlt⟩
    rw [readNumeral_of_isNumeral hpos hbase hlimit hnumeral, if_pos hlt]

theorem toOption_readNumeral_eq_some_iff (hpos : 0 < base) (hbase : base ≤ 16)
    (hlimit : 0 < limit) :
    (readNumeral base limit cs).toOption = some n ↔ IsNumeral base cs n ∧ n < limit := by
  rw [← readNumeral_eq_ok_iff hpos hbase hlimit]
  rcases readNumeral base limit cs with error | m <;> simp [Except.toOption]

/-- A text denotes at most one number in a base. -/
theorem IsNumeral.unique (hpos : 0 < base) (hbase : base ≤ 16) (hn : IsNumeral base cs n)
    (hm : IsNumeral base cs m) : n = m := by
  have hreadn : readNumeral base (n + m + 1) cs = _ :=
    readNumeral_of_isNumeral hpos hbase (by omega) hn
  have hreadm : readNumeral base (n + m + 1) cs = _ :=
    readNumeral_of_isNumeral hpos hbase (by omega) hm
  rw [if_pos (by omega)] at hreadn hreadm
  exact Except.ok.inj (hreadn.symm.trans hreadm)

/-- The characters of a numeral are digits of the base, but for the sign. -/
theorem IsNumeral.forall_mem (hbase : base ≤ 16) (h : IsNumeral base cs n) :
    ∀ c ∈ cs, c = '+' ∨ (digit? base c).isSome := by
  obtain ⟨digits, rfl | rfl, -, hspells⟩ := h
  · exact fun c hc => .inr (hspells.forall_mem hbase c hc)
  · exact List.forall_mem_cons.mpr ⟨.inl rfl, fun c hc => .inr (hspells.forall_mem hbase c hc)⟩

theorem IsNumeral.solid (hbase : base ≤ 16) (h : IsNumeral base cs n) : Solid cs := by
  intro c hc
  rcases h.forall_mem hbase c hc with rfl | hdigit
  · rfl
  · exact isBlank_of_digitValue? (isSome_digitValue?_of_digit? hdigit)

/-- The digits of a number are a numeral, with any number of zeros before them. -/
theorem isNumeral_zeros_toDigits (hbase : 1 < base) (hle : base ≤ 16) (k n : Nat) :
    IsNumeral base (List.replicate k '0' ++ Nat.toDigits base n) n := by
  refine ⟨_, .inl rfl, List.append_ne_nil_of_right_ne_nil _ Nat.toDigits_ne_nil, ?_⟩
  exact ((readDigits_eq_ok_iff (by omega) hle n.succ_pos).mp
    (readDigits_zeros_toDigits hbase hle n.lt_succ_self k)).1

theorem isNumeral_hexDigits (n : Nat) : IsNumeral 16 (hexDigits n) n :=
  isNumeral_zeros_toDigits (by omega) (by omega) 0 n

theorem toList_hex (n : Nat) : (hex n).toList = '0' :: 'x' :: hexDigits n := by
  have hdigits : (String.ofList (hexDigits n)).toList = hexDigits n := String.toList_ofList
  rw [hex, String.toList_append, hdigits]
  rfl

end TriCore.Text
