import TriCore.Command.Run
import TriCore.Proofs.Text.Numerals

/-!
# Which texts are addresses

An address is given in hexadecimal behind its mark or in decimal, with blanks around it or none. A
text cannot be both: the second character of the mark is no decimal digit. So a text denotes one
number at most, and it is read as this number if there is an address with it. No other text is read.

## Main definitions

* `Command.Marked` : digits behind the mark of hexadecimal numbers.
* `Command.AddressForm`, `Command.Denotes` : the number that a text denotes as an address.

## Main results

* `Command.readAddress_of_denotes`, `Command.denotes_of_readAddress_eq_ok` : which texts are read.
* `Command.readAddress_exact` : texts are read as the addresses that they denote.
-/

namespace TriCore.Command

open Text

variable {text : String} {a : UInt64} {cs digits digits' : List Char} {n m : Nat}

/-! ### Written addresses -/

/-- A text consists of the mark of hexadecimal numbers and these digits. -/
def Marked (cs digits : List Char) : Prop := cs = '0' :: 'x' :: digits ∨ cs = '0' :: 'X' :: digits

/-- A text denotes a number as an address: in hexadecimal behind the mark, or in decimal. -/
inductive AddressForm (cs : List Char) (n : Nat) : Prop
  | hexadecimal (digits : List Char) (hmark : Marked cs digits) (hdigits : IsNumeral 16 digits n)
  | decimal (hdigits : IsNumeral 10 cs n)

/-- A text denotes a number as an address, with any blanks around it. -/
def Denotes (text : String) (n : Nat) : Prop := ∃ cs, Padded cs text.toList ∧ AddressForm cs n

theorem Marked.solid (hmark : Marked cs digits) (hdigits : Solid digits) : Solid cs := by
  rcases hmark with rfl | rfl
  · exact List.forall_mem_cons.mpr ⟨rfl, List.forall_mem_cons.mpr ⟨rfl, hdigits⟩⟩
  · exact List.forall_mem_cons.mpr ⟨rfl, List.forall_mem_cons.mpr ⟨rfl, hdigits⟩⟩

theorem Marked.eq_drop (h : Marked cs digits) : digits = cs.drop 2 := by
  rcases h with rfl | rfl <;> rfl

theorem Marked.unique (h : Marked cs digits) (h' : Marked cs digits') : digits = digits' :=
  h.eq_drop.trans h'.eq_drop.symm

/-- A number in decimal does not stand behind the mark of hexadecimal ones. -/
theorem Marked.not_isNumeral (h : Marked cs digits) : ¬ IsNumeral 10 cs n := by
  intro hnumeral
  -- The letter of the mark would have to be a sign or a decimal digit.
  rcases h with rfl | rfl
  · rcases hnumeral.forall_mem (by omega) 'x' (by simp) with hx | hx <;> cases hx
  · rcases hnumeral.forall_mem (by omega) 'X' (by simp) with hx | hx <;> cases hx

theorem AddressForm.solid (h : AddressForm cs n) : Solid cs := by
  rcases h with ⟨digits, hmark, hdigits⟩ | hdigits
  · exact hmark.solid (hdigits.solid (by omega))
  · exact hdigits.solid (by omega)

theorem AddressForm.unique (hn : AddressForm cs n) (hm : AddressForm cs m) : n = m := by
  rcases hn with ⟨digits, hmark, hdigits⟩ | hdigits
  · rcases hm with ⟨digits', hmark', hdigits'⟩ | hdigits'
    · obtain rfl := hmark.unique hmark'
      exact hdigits.unique (by omega) (by omega) hdigits'
    · exact absurd hdigits' hmark.not_isNumeral
  · rcases hm with ⟨digits', hmark', hdigits'⟩ | hdigits'
    · exact absurd hdigits hmark'.not_isNumeral
    · exact hdigits.unique (by omega) (by omega) hdigits'

/-- What a text denotes is seen without the blanks around it. -/
theorem denotes_iff : Denotes text n ↔ AddressForm (trim text.toList) n :=
  exists_padded_iff fun _ => AddressForm.solid

/-- A text denotes one number at most. -/
theorem Denotes.unique (hn : Denotes text n) (hm : Denotes text m) : n = m :=
  (denotes_iff.mp hn).unique (denotes_iff.mp hm)

/-! ### Reading -/

/-- The number with these digits as an address. -/
def addressOf (base : Nat) (digits : List Char) : Except NumeralError UInt64 :=
  (readNumeral base UInt64.size digits).map UInt64.ofNat

theorem addressOf_of_isNumeral {base : Nat} (hpos : 0 < base) (hbase : base ≤ 16)
    (h : IsNumeral base digits n) :
    addressOf base digits =
      if n < UInt64.size then .ok (UInt64.ofNat n) else .error .tooLarge := by
  rw [addressOf, readNumeral_of_isNumeral hpos hbase (by decide) h]
  split_ifs <;> rfl

theorem isNumeral_of_addressOf_eq_ok {base : Nat} (hpos : 0 < base) (hbase : base ≤ 16)
    (h : addressOf base digits = .ok a) : IsNumeral base digits a.toNat := by
  rw [addressOf] at h
  rcases hread : readNumeral base UInt64.size digits with error | n
  · rw [hread] at h
    cases h
  · rw [hread] at h
    obtain rfl : UInt64.ofNat n = a := Except.ok.inj h
    obtain ⟨hnumeral, hlt⟩ := (readNumeral_eq_ok_iff hpos hbase (by decide)).mp hread
    rwa [UInt64.toNat_ofNat_of_lt' hlt]

theorem readAddress_of_marked (h : Marked (trim text.toList) digits) :
    readAddress text = addressOf 16 digits := by
  rcases h with h | h <;> simp only [readAddress, addressOf, h]

theorem readAddress_of_not_marked (h : ∀ digits, ¬ Marked (trim text.toList) digits) :
    readAddress text = addressOf 10 (trim text.toList) := by
  rw [readAddress]
  split
  case h_1 digits hcs => exact absurd (.inl hcs) (h digits)
  case h_2 digits hcs => exact absurd (.inr hcs) (h digits)
  case h_3 => rfl

/-- A text that denotes a number is read as the address with this number, and refused as too large
if there is none. -/
theorem readAddress_of_denotes (h : Denotes text n) :
    readAddress text = if n < UInt64.size then .ok (UInt64.ofNat n) else .error .tooLarge := by
  rcases denotes_iff.mp h with ⟨digits, hmark, hdigits⟩ | hdigits
  · rw [readAddress_of_marked hmark, addressOf_of_isNumeral (by omega) (by omega) hdigits]
  · rw [readAddress_of_not_marked fun digits hmark => hmark.not_isNumeral hdigits,
      addressOf_of_isNumeral (by omega) (by omega) hdigits]

/-- A text that is read as an address denotes its number. -/
theorem denotes_of_readAddress_eq_ok (h : readAddress text = .ok a) : Denotes text a.toNat := by
  refine denotes_iff.mpr ?_
  by_cases hmarked : ∃ digits, Marked (trim text.toList) digits
  · obtain ⟨digits, hmark⟩ := hmarked
    rw [readAddress_of_marked hmark] at h
    exact .hexadecimal digits hmark (isNumeral_of_addressOf_eq_ok (by omega) (by omega) h)
  · rw [readAddress_of_not_marked (not_exists.mp hmarked)] at h
    exact .decimal (isNumeral_of_addressOf_eq_ok (by omega) (by omega) h)

theorem readAddress_eq_ok_iff : readAddress text = .ok a ↔ Denotes text a.toNat := by
  refine ⟨denotes_of_readAddress_eq_ok, fun h => ?_⟩
  rw [readAddress_of_denotes h, if_pos a.toNat_lt_size, UInt64.ofNat_toNat]

/-! ### Written forms -/

/-- The written forms of a number: its digits in decimal, or in hexadecimal behind the mark, with
zeros before the digits. -/
inductive Written (n : Nat) : List Char → Prop
  | decimal (zeros : Nat) : Written n (List.replicate zeros '0' ++ (Text.decimal n).toList)
  | hexadecimal (zeros : Nat) :
    Written n ('0' :: 'x' :: (List.replicate zeros '0' ++ hexDigits n))

theorem written_decimal (n : Nat) : Written n (Text.decimal n).toList := Written.decimal 0

theorem written_hex (n : Nat) : Written n (hex n).toList := by
  rw [toList_hex]
  exact Written.hexadecimal 0

theorem Written.addressForm (h : Written n cs) : AddressForm cs n := by
  rcases h with zeros | zeros
  · rw [Text.decimal, String.toList_ofList]
    exact .decimal (isNumeral_zeros_toDigits (by omega) (by omega) zeros n)
  · exact .hexadecimal _ (.inl rfl) (isNumeral_zeros_toDigits (by omega) (by omega) zeros n)

/-- **Texts of addresses.** A text is read as an address exactly if it denotes the number of this
address, in hexadecimal behind the mark or in decimal, and with any blanks around it. A text denotes
one number at most, and if no address has this number, it is refused as too large. An address is
read from its written forms, with any zeros before the digits and any blanks around the whole. -/
theorem readAddress_exact :
    (∀ (text : String) (a : UInt64), readAddress text = .ok a ↔ Denotes text a.toNat) ∧
    (∀ (text : String) (n : Nat), Denotes text n → UInt64.size ≤ n →
      readAddress text = .error .tooLarge) ∧
    (∀ (text : String) (n m : Nat), Denotes text n → Denotes text m → n = m) ∧
    (∀ a : UInt64, readAddress (Text.decimal a.toNat) = .ok a ∧
      readAddress (hex a.toNat) = .ok a) ∧
    ∀ (a : UInt64) (cs padded : List Char), Written a.toNat cs → Padded cs padded →
      readAddress (String.ofList padded) = .ok a := by
  have hwritten (a : UInt64) (cs padded : List Char) (hcs : Written a.toNat cs)
      (hpadded : Padded cs padded) : readAddress (String.ofList padded) = .ok a := by
    refine readAddress_eq_ok_iff.mpr ⟨cs, ?_, hcs.addressForm⟩
    rwa [String.toList_ofList]
  refine ⟨fun _ _ => readAddress_eq_ok_iff, fun text n h hsize => ?_, fun _ _ _ => Denotes.unique,
    fun a => ⟨?_, ?_⟩, hwritten⟩
  · rw [readAddress_of_denotes h, if_neg (by omega)]
  · simpa using hwritten a _ _ (written_decimal a.toNat) (.self _)
  · simpa using hwritten a _ _ (written_hex a.toNat) (.self _)

/-- The number `255` has a sign, a zero and digits of both cases here, and the blanks around it are
not all ASCII. The first number that is too large is refused. -/
theorem readAddress_exact_mixedCase :
    Denotes "\u2003 0X+0fF\n" 255 ∧ readAddress "\u2003 0X+0fF\n" = .ok 255 ∧
      Denotes "18446744073709551616" UInt64.size ∧
      readAddress "18446744073709551616" = .error .tooLarge := by
  have hdigits : List.Forall₂ (IsDigit 16) ['0', 'f', 'F'] [0, 15, 15] :=
    .cons ⟨by decide, .inl rfl⟩ (.cons ⟨by decide, .inl rfl⟩ (.cons ⟨by decide, .inr rfl⟩ .nil))
  have hsmall : Denotes "\u2003 0X+0fF\n" 255 :=
    ⟨['0', 'X', '+', '0', 'f', 'F'],
      ⟨['\u2003', ' '], ['\n'], rfl, List.all_eq_true.mp rfl, List.all_eq_true.mp rfl⟩,
      .hexadecimal _ (.inr rfl) ⟨_, .inr rfl, List.cons_ne_nil _ _, _, hdigits, rfl⟩⟩
  have hlarge : Denotes "18446744073709551616" UInt64.size :=
    ⟨_, .self _, (written_decimal UInt64.size).addressForm⟩
  exact ⟨hsmall, (readAddress_exact.1 _ 255).mpr hsmall, hlarge,
    readAddress_exact.2.1 _ UInt64.size hlarge le_rfl⟩

end TriCore.Command
