import Mathlib.Data.List.TakeWhile
import TriCore.Proofs.Text.Digits
import TriCore.Text.Blank

/-!
# Words in a text

Names and numbers are written in letters and figures, and whatever stands between them begins with
some other character. A text that is put together from words and separators can therefore be taken
apart again from its front: a word ends where the first character follows that is neither a letter
nor a figure. Written forms with this property are called delimited. Lists of them with a separator
between any two items can be taken apart as well.

## Main definitions

* `Text.IsWord`, `Text.EndsWord` : letters and figures, and what ends a word.
* `Text.Delimited` : written forms that can be taken off the front of a text.

## Main results

* `Text.IsWord.append_inj` : a word is taken off the front of a text.
* `Text.trimEnd_append_word` : no blank stands behind a text that ends with a word.
* `Text.Delimited.of_isWord`, `Text.Delimited.pair` : how delimited forms are made.
* `Text.Delimited.intercalate_injective` : a list of delimited forms with a separator between them.
* `Text.flatMap_lines_injective` : lines without line ends in them.
-/

namespace TriCore.Text

variable {α β : Type} {c : Char} {cs us vs xs ys : List Char}

/-! ### The front of a text -/

theorem takeWhile_append_of_head {p : Char → Bool} (hx : ∀ c ∈ xs, p c)
    (hu : ∀ c ∈ us.head?, p c = false) : (xs ++ us).takeWhile p = xs := by
  rw [List.takeWhile_append_of_pos hx]
  cases us with
  | nil => rw [List.takeWhile_nil, List.append_nil]
  | cons c us =>
    rw [List.takeWhile_cons_of_neg (Bool.not_eq_true _ ▸ hu c rfl), List.append_nil]

/-- A text is cut where the first character is that some property does not hold of. -/
theorem append_inj_of_head {p : Char → Bool} (hx : ∀ c ∈ xs, p c) (hy : ∀ c ∈ ys, p c)
    (hu : ∀ c ∈ us.head?, p c = false) (hv : ∀ c ∈ vs.head?, p c = false)
    (h : xs ++ us = ys ++ vs) : xs = ys ∧ us = vs := by
  have hxy : xs = ys := by
    rw [← takeWhile_append_of_head hx hu, h, takeWhile_append_of_head hy hv]
  exact ⟨hxy, List.append_cancel_left (hxy ▸ h)⟩

/-- A text is cut at the first occurrence of a character. -/
theorem append_cons_inj (hx : c ∉ xs) (hy : c ∉ ys) (h : xs ++ c :: us = ys ++ c :: vs) :
    xs = ys ∧ us = vs := by
  have hfree {zs : List Char} (hz : c ∉ zs) : ∀ d ∈ zs, (d != c) = true := fun d hd =>
    bne_iff_ne.mpr fun hdc => hz (hdc ▸ hd)
  have hcut (ws : List Char) : ∀ d ∈ (c :: ws).head?, (d != c) = false := fun d hd => by
    obtain rfl : c = d := Option.some.inj hd
    exact bne_self_eq_false c
  obtain ⟨hxy, hrest⟩ := append_inj_of_head (hfree hx) (hfree hy) (hcut us) (hcut vs) h
  exact ⟨hxy, List.tail_eq_of_cons_eq hrest⟩

/-! ### Words -/

/-- A word consists of letters and figures. -/
def IsWord (cs : List Char) : Prop := ∀ c ∈ cs, (digitValue? c).isSome

/-- A word ends where these characters follow it. -/
def EndsWord (cs : List Char) : Prop := ∀ c ∈ cs.head?, digitValue? c = none

instance (cs : List Char) : Decidable (IsWord cs) := List.decidableBAll _ cs

theorem endsWord_nil : EndsWord [] := fun _ hc => nomatch hc

theorem endsWord_cons (hc : digitValue? c = none) : EndsWord (c :: cs) := fun _ h =>
  Option.some.inj h ▸ hc

theorem endsWord_of_head? (h : cs.head? = some c) (hc : digitValue? c = none) : EndsWord cs :=
  fun _ h' => Option.some.inj (h.symm.trans h') ▸ hc

theorem IsWord.not_mem (h : IsWord cs) (hc : digitValue? c = none) : c ∉ cs := fun hmem => by
  have := h c hmem
  rw [hc] at this
  cases this

theorem IsWord.append (hx : IsWord xs) (hy : IsWord ys) : IsWord (xs ++ ys) := fun c hc =>
  (List.mem_append.mp hc).elim (hx c) (hy c)

theorem isWord_toDigits {base : Nat} (hbase : 1 < base) (hle : base ≤ 16) (n : Nat) :
    IsWord (Nat.toDigits base n) := fun c hc => by
  obtain ⟨d, hd, rfl⟩ := exists_of_mem_toDigits hbase hc
  rw [digitValue?_digitChar d (by omega)]
  rfl

theorem isWord_decimal (n : Nat) : IsWord (decimal n).toList := by
  rw [decimal, String.toList_ofList]
  exact isWord_toDigits (by decide) (by decide) n

theorem isWord_paddedDigits (width n : Nat) : IsWord (paddedDigits width n) := by
  refine IsWord.append (fun c hc => ?_) (isWord_toDigits (by decide) (by decide) n)
  rw [List.eq_of_mem_replicate hc]
  rfl

theorem isWord_digitPair (b : UInt8) : IsWord (digitPair b) := by
  rw [← toList_hexByte, hexByte, String.toList_ofList]
  exact isWord_paddedDigits 2 b.toNat

theorem isWord_paddedHex (width n : Nat) : IsWord (paddedHex width n).toList := by
  rw [paddedHex, String.toList_append]
  refine IsWord.append (by decide) ?_
  rw [String.toList_ofList]
  exact isWord_paddedDigits width n

theorem isWord_hex (n : Nat) : IsWord (hex n).toList := by
  rw [hex, String.toList_append]
  refine IsWord.append (by decide) ?_
  rw [String.toList_ofList]
  exact isWord_toDigits (by decide) (by decide) n

/-- A word is taken off the front of a text. -/
theorem IsWord.append_inj (hx : IsWord xs) (hy : IsWord ys) (hu : EndsWord us) (hv : EndsWord vs)
    (h : xs ++ us = ys ++ vs) : xs = ys ∧ us = vs :=
  append_inj_of_head hx hy (fun c hc => by rw [hu c hc]; rfl) (fun c hc => by rw [hv c hc]; rfl) h

/-! ### Blanks behind a text -/

theorem toNat_of_digitValue? (h : (digitValue? c).isSome) :
    (48 ≤ c.toNat ∧ c.toNat ≤ 57) ∨ (97 ≤ c.toNat ∧ c.toNat ≤ 122) ∨
      (65 ≤ c.toNat ∧ c.toNat ≤ 90) := by
  unfold digitValue? at h
  split at h
  case isTrue hc => exact .inl hc
  case isFalse =>
    split at h
    case isTrue hc => exact .inr (.inl hc)
    case isFalse =>
      split at h
      case isTrue hc => exact .inr (.inr hc)
      case isFalse => cases h

theorem isBlank_of_digitValue? (h : (digitValue? c).isSome) : isBlank c = false := by
  have := toNat_of_digitValue? h
  simp only [isBlank, Bool.or_eq_false_iff, Bool.and_eq_false_iff, decide_eq_false_iff_not,
    beq_eq_false_iff_ne]
  omega

theorem trimEnd_append_blank (hc : isBlank c = true) : trimEnd (cs ++ [c]) = trimEnd cs := by
  simp [trimEnd, hc]

theorem trimEnd_append_of_not_isBlank (hc : isBlank c = false) :
    trimEnd (cs ++ [c]) = cs ++ [c] := by
  simp [trimEnd, hc]

/-- Nothing is trimmed from a text that ends with a word. -/
theorem trimEnd_append_word (hy : IsWord ys) (hne : ys ≠ []) : trimEnd (xs ++ ys) = xs ++ ys := by
  rw [← List.dropLast_concat_getLast hne, ← List.append_assoc]
  exact trimEnd_append_of_not_isBlank (isBlank_of_digitValue? (hy _ (List.getLast_mem hne)))

/-! ### Delimited forms -/

/-- A written form is known as soon as something follows that ends a word. -/
def Delimited (f : α → List Char) : Prop :=
  ∀ a b us vs, EndsWord us → EndsWord vs → f a ++ us = f b ++ vs → a = b ∧ us = vs

namespace Delimited

variable {f : α → List Char} {g : β → List Char} {sep : List Char}

theorem injective (hf : Delimited f) : Function.Injective f := fun a b h =>
  (hf a b [] [] endsWord_nil endsWord_nil (congrArg (· ++ []) h)).1

theorem of_isWord (hword : ∀ a, IsWord (f a)) (hinj : Function.Injective f) : Delimited f :=
  fun a b _ _ hu hv h =>
    let ⟨hf, hrest⟩ := (hword a).append_inj (hword b) hu hv h
    ⟨hinj hf, hrest⟩

theorem endsWord_append (hsep : EndsWord sep) (hne : sep ≠ []) : EndsWord (sep ++ us) := by
  cases sep with
  | nil => exact absurd rfl hne
  | cons c sep => exact endsWord_cons (hsep c rfl)

/-- Two delimited forms with a separator between them. -/
theorem pair (hf : Delimited f) (hg : Delimited g) (hsep : EndsWord sep) (hne : sep ≠ []) :
    Delimited fun p : α × β => f p.1 ++ (sep ++ g p.2) := by
  rintro ⟨a, b⟩ ⟨a', b'⟩ us vs hu hv h
  simp only [List.append_assoc] at h
  obtain ⟨rfl, hrest⟩ :=
    hf a a' _ _ (endsWord_append hsep hne) (endsWord_append hsep hne) h
  obtain ⟨rfl, rfl⟩ := hg b b' us vs hu hv (List.append_cancel_left hrest)
  exact ⟨rfl, rfl⟩

/-- Two delimited forms with a separator between them tell both parts. -/
theorem pair_inj (hf : Delimited f) (hg : Delimited g) (hsep : EndsWord sep) (hne : sep ≠ [])
    {a a' : α} {b b' : β} (h : f a ++ (sep ++ g b) = f a' ++ (sep ++ g b')) :
    a = a' ∧ b = b' := by
  have heq : (a, b) = (a', b') := (hf.pair hg hsep hne).injective h
  exact Prod.mk.inj heq

theorem endsWord_flatMap (hsep : EndsWord sep) (hne : sep ≠ []) (as : List α) :
    EndsWord (as.flatMap fun a => sep ++ f a) := by
  cases as with
  | nil => exact endsWord_nil
  | cons a as =>
    rw [List.flatMap_cons, List.append_assoc]
    exact endsWord_append hsep hne

/-- Delimited forms, each behind a separator, are taken apart one by one. -/
theorem flatMap_injective (hf : Delimited f) (hsep : EndsWord sep) (hne : sep ≠ []) :
    Function.Injective fun as : List α => as.flatMap fun a => sep ++ f a := by
  intro as bs h
  simp only at h
  induction as generalizing bs with
  | nil =>
    cases bs with
    | nil => rfl
    | cons b bs => simp [hne] at h
  | cons a as ih =>
    cases bs with
    | nil => simp [hne] at h
    | cons b bs =>
      simp only [List.flatMap_cons, List.append_assoc] at h
      obtain ⟨rfl, hrest⟩ := hf a b _ _ (endsWord_flatMap hsep hne as)
        (endsWord_flatMap hsep hne bs) (List.append_cancel_left h)
      rw [ih hrest]

theorem intercalate_cons (a : α) (as : List α) :
    sep.intercalate ((a :: as).map f) = f a ++ as.flatMap fun a => sep ++ f a := by
  induction as generalizing a with
  | nil => simp
  | cons b bs ih =>
    rw [List.map_cons, List.map_cons, List.intercalate_cons_cons, ← List.map_cons, ih b,
      List.flatMap_cons, List.append_assoc, List.append_assoc]

/-- A list of delimited forms with a separator between them is taken apart. -/
theorem intercalate_injective (hf : Delimited f) (hsome : ∀ a, f a ≠ []) (hsep : EndsWord sep)
    (hne : sep ≠ []) : Function.Injective fun as : List α => sep.intercalate (as.map f) := by
  intro as bs h
  simp only at h
  cases as with
  | nil =>
    cases bs with
    | nil => rfl
    | cons b bs =>
      rw [intercalate_cons] at h
      simp [hsome b] at h
  | cons a as =>
    cases bs with
    | nil =>
      rw [intercalate_cons] at h
      simp [hsome a] at h
    | cons b bs =>
      rw [intercalate_cons, intercalate_cons] at h
      obtain ⟨rfl, hrest⟩ :=
        hf a b _ _ (endsWord_flatMap hsep hne as) (endsWord_flatMap hsep hne bs) h
      rw [hf.flatMap_injective hsep hne hrest]

end Delimited

/-! ### Lines -/

/-- Lines are told apart by their ends if no line has such an end within it. -/
theorem flatMap_lines_injective {f : α → List Char} (hf : ∀ a, c ∉ f a) {as bs : List α}
    (h : (as.flatMap fun a => f a ++ [c]) = bs.flatMap fun b => f b ++ [c]) :
    as.map f = bs.map f := by
  induction as generalizing bs with
  | nil =>
    cases bs with
    | nil => rfl
    | cons b bs => simp at h
  | cons a as ih =>
    cases bs with
    | nil => simp at h
    | cons b bs =>
      simp only [List.flatMap_cons, List.append_assoc, List.singleton_append] at h
      obtain ⟨hline, hrest⟩ := append_cons_inj (hf a) (hf b) h
      rw [List.map_cons, List.map_cons, hline, ih hrest]

end TriCore.Text
