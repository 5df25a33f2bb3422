import TriCore.Text.Numeral

/-!
# Written numbers

The digits of a number are read back as that number, in every base up to sixteen and with any number
of zeros before them. So no two numbers have the same digits, and the written forms that are built
from digits are different for different numbers. A byte has exactly two digits, which makes the
digits of two bytes side by side readable without anything between them.

## Main definitions

* `Text.digitPair` : the two digits of a byte.

## Main results

* `Text.readDigits_toDigits` : the digits of a number are read back.
* `Text.decimal_injective`, `Text.hex_injective`, `Text.paddedHex_injective` : written forms are
  different for different numbers.
* `Text.toList_hexByte`, `Text.digitPair_injective` : a byte has two digits, by which it is known.
-/

namespace TriCore.Text

variable {base limit value n m k : Nat} {c : Char} {cs ds : List Char}

/-! ### Digits -/

theorem digitValue?_digitChar : ∀ d < 16, digitValue? (Nat.digitChar d) = some d := by decide

theorem digit?_digitChar {d : Nat} (hbase : base ≤ 16) (hd : d < base) :
    digit? base (Nat.digitChar d) = some d := by
  simp [digit?, digitValue?_digitChar d (by omega), hd]

/-- What stands among the digits of a number is a digit. -/
theorem exists_of_mem_toDigits (hbase : 1 < base) (hc : c ∈ Nat.toDigits base n) :
    ∃ d < base, c = Nat.digitChar d := by
  induction n using Nat.strongRecOn with
  | ind n ih =>
    by_cases hn : n < base
    · rw [Nat.toDigits_of_lt_base hn, List.mem_singleton] at hc
      exact ⟨n, hn, hc⟩
    · have hle : base ≤ n := Nat.le_of_not_lt hn
      rw [Nat.toDigits_of_base_le hbase hle, List.mem_append, List.mem_singleton] at hc
      rcases hc with hc | hc
      · exact ih (n / base) (Nat.div_lt_self (by omega) hbase) hc
      · exact ⟨n % base, Nat.mod_lt n (by omega), hc⟩

/-- The digits of a number other than zero begin with a digit other than zero. -/
theorem exists_head_toDigits (hbase : 1 < base) (hn : n ≠ 0) :
    ∃ d cs, d ≠ 0 ∧ d < base ∧ Nat.toDigits base n = Nat.digitChar d :: cs := by
  induction n using Nat.strongRecOn with
  | ind n ih =>
    by_cases hlt : n < base
    · exact ⟨n, [], hn, hlt, Nat.toDigits_of_lt_base hlt⟩
    · have hle : base ≤ n := Nat.le_of_not_lt hlt
      have hquotient : n / base ≠ 0 := Nat.div_ne_zero_iff.mpr ⟨by omega, hle⟩
      obtain ⟨d, cs, hd, hdbase, heq⟩ := ih (n / base) (Nat.div_lt_self (by omega) hbase) hquotient
      exact ⟨d, _, hd, hdbase, by rw [Nat.toDigits_of_base_le hbase hle, heq, List.cons_append]⟩

/-! ### Reading back -/

theorem readDigits_cons_zero (hbase : 0 < base) (hlimit : 0 < limit) :
    readDigits base limit 0 ('0' :: cs) = readDigits base limit 0 cs := by
  have hzero : digit? base '0' = some 0 := by simp [digit?, digitValue?, hbase]
  simp only [readDigits, hzero, Nat.zero_mul, Nat.add_zero, hlimit, if_true]

theorem readDigits_replicate_append (hbase : 0 < base) (hlimit : 0 < limit) (k : Nat) :
    readDigits base limit 0 (List.replicate k '0' ++ cs) = readDigits base limit 0 cs := by
  induction k with
  | zero => rfl
  | succ k ih => rw [List.replicate_succ, List.cons_append, readDigits_cons_zero hbase hlimit, ih]

theorem readDigits_append_of_eq_ok (h : readDigits base limit value cs = .ok n) :
    readDigits base limit value (cs ++ ds) = readDigits base limit n ds := by
  induction cs generalizing value with
  | nil =>
    cases h
    rfl
  | cons c cs ih =>
    rw [List.cons_append, readDigits] at *
    cases hc : digit? base c with
    | none => simp only [hc, reduceCtorEq] at h
    | some d =>
      simp only [hc] at h ⊢
      split at h
      case isTrue hlt => rw [if_pos hlt, ih h]
      case isFalse => cases h

/-- The digits of a number below the limit are read back as that number. -/
theorem readDigits_toDigits (hbase : 1 < base) (hle : base ≤ 16) (hn : n < limit) :
    readDigits base limit 0 (Nat.toDigits base n) = .ok n := by
  induction n using Nat.strongRecOn with
  | ind n ih =>
    by_cases hlt : n < base
    · rw [Nat.toDigits_of_lt_base hlt, readDigits]
      simp only [digit?_digitChar hle hlt, Nat.zero_mul, Nat.zero_add, hn, if_true, readDigits]
    · have hquotient : n / base < n := Nat.div_lt_self (by omega) hbase
      have hdigit : n % base < base := Nat.mod_lt n (by omega)
      have hvalue : n / base * base + n % base = n := Nat.div_add_mod' n base
      rw [Nat.toDigits_of_base_le hbase (Nat.le_of_not_lt hlt),
        readDigits_append_of_eq_ok (ih (n / base) hquotient (by omega)), readDigits]
      simp only [digit?_digitChar hle hdigit, hvalue, hn, if_true, readDigits]

/-- Zeros before the digits of a number change nothing. -/
theorem readDigits_zeros_toDigits (hbase : 1 < base) (hle : base ≤ 16) (hn : n < limit) (k : Nat) :
    readDigits base limit 0 (List.replicate k '0' ++ Nat.toDigits base n) = .ok n := by
  rw [readDigits_replicate_append (by omega) (by omega), readDigits_toDigits hbase hle hn]

/-! ### Different numbers -/

/-- Two numbers with the same digits are equal, whatever zeros stand before the digits. -/
theorem eq_of_zeros_toDigits_eq (hbase : 1 < base) (hle : base ≤ 16) {k l : Nat}
    (h : List.replicate k '0' ++ Nat.toDigits base n =
      List.replicate l '0' ++ Nat.toDigits base m) : n = m := by
  have hn := readDigits_zeros_toDigits hbase hle (Nat.lt_succ_of_le (Nat.le_max_left n m)) k
  have hm := readDigits_zeros_toDigits hbase hle (Nat.lt_succ_of_le (Nat.le_max_right n m)) l
  rw [h, hm] at hn
  exact (Except.ok.inj hn).symm

theorem toDigits_injective (hbase : 1 < base) (hle : base ≤ 16) :
    Function.Injective (Nat.toDigits base) := fun _ _ h =>
  eq_of_zeros_toDigits_eq hbase hle (congrArg (List.replicate 0 '0' ++ ·) h)

theorem paddedDigits_injective (width : Nat) : Function.Injective (paddedDigits width) :=
  fun _ _ h => eq_of_zeros_toDigits_eq (by decide) (by decide) h

theorem decimal_injective : Function.Injective decimal := fun _ _ h =>
  toDigits_injective (by decide) (by decide) (String.ofList_injective h)

theorem hex_injective : Function.Injective hex := fun n m h => by
  simp only [hex, ← String.toList_inj, String.toList_append, String.toList_ofList] at h
  exact toDigits_injective (by decide) (by decide) (List.append_cancel_left h)

theorem paddedHex_injective (width : Nat) : Function.Injective (paddedHex width) := fun n m h => by
  simp only [paddedHex, ← String.toList_inj, String.toList_append, String.toList_ofList] at h
  exact paddedDigits_injective width (List.append_cancel_left h)

/-! ### Bytes -/

/-- The two digits of a byte. -/
def digitPair (b : UInt8) : List Char :=
  [Nat.digitChar (b.toNat / 16), Nat.digitChar (b.toNat % 16)]

theorem toList_hexByte (b : UInt8) : (hexByte b).toList = digitPair b := by
  have hb : b.toNat < 256 := b.toNat_lt
  rw [hexByte, String.toList_ofList, paddedDigits, hexDigits, digitPair]
  by_cases hlow : b.toNat < 16
  · rw [Nat.toDigits_of_lt_base hlow, Nat.div_eq_of_lt hlow, Nat.mod_eq_of_lt hlow]
    rfl
  · rw [Nat.toDigits_of_base_le (by decide) (Nat.le_of_not_lt hlow),
      Nat.toDigits_of_lt_base (by omega)]
    rfl

theorem hexByte_injective : Function.Injective hexByte := fun _ _ h =>
  UInt8.toNat_inj.mp (paddedDigits_injective 2 (String.ofList_injective h))

theorem digitPair_injective : Function.Injective digitPair := fun b b' h =>
  hexByte_injective (String.toList_inj.mp (by rw [toList_hexByte, toList_hexByte, h]))

end TriCore.Text
