import TriCore.Proofs.Listing.Line
import TriCore.Proofs.Listing.Record

/-!
# What a listing shows

What a listing shows can be said without the functions that write its lines and records. As text it
has a line for each entry: the address in hexadecimal with at least eight digits, then a pair of
digits for each byte, and then the outcome. As JSON it is read as an array with a record for each
entry. A listing cannot be taken to show other entries, except such as are listed alike.

## Main definitions

* `Listing.Entry.shown` : the characters of a line that shows an entry.
* `Listing.Shows` : a text that shows entries in a form.
* `Listing.Presents` : a text that shows these entries and no others.

## Main results

* `Listing.Entry.toList_line`, `Listing.toList_text_eq_shown` : the lines of entries show them.
* `Listing.Shows.alike` : entries that the same text shows are alike.
* `Listing.presents_listing` : a listing shows its entries and no others.
-/

namespace TriCore

open Text

deriving instance DecidableEq for Listing.Entry

/-! ### Lines -/

namespace Listing

/-- The characters of a line that shows an entry: the address in hexadecimal with at least eight
digits, the bytes and the outcome. -/
def Entry.shown (e : Entry) : List Char :=
  '0' :: 'x' :: (List.leftpad 8 '0' (Nat.toDigits 16 e.address.toNat) ++
    ':' :: ' ' :: (column e.bytes ++ outcomeText e.result))

theorem Entry.toList_line (e : Entry) : e.line.toList = e.shown := by
  have haddress : (paddedHex 8 e.address.toNat).toList =
      '0' :: 'x' :: List.leftpad 8 '0' (Nat.toDigits 16 e.address.toNat) := by
    simp only [paddedHex, String.toList_append, String.toList_ofList, String.reduceToList]
    rfl
  rw [Entry.line, Listing.toList_line, haddress, shown]
  simp only [String.reduceToList, List.cons_append, List.nil_append]

/-! ### Whole listings -/

/-- A text shows entries: as lines, each with its end, or as an array of records. -/
def Shows : Command.ListingForm → List Entry → String → Prop
  | .text, entries, output => output.toList = entries.flatMap fun e => e.shown ++ ['\n']
  | .json, entries, output =>
    ∃ records, Json.parse? output = some (.array records) ∧
      List.Forall₂ Entry.Recorded entries records

theorem toList_text_eq_shown (entries : List Entry) :
    (text entries).toList = entries.flatMap fun e => e.shown ++ ['\n'] := by
  rw [toList_text]
  simp only [Entry.toList_line]

/-- A text shows these entries, and no others except such as are alike. -/
structure Presents (form : Command.ListingForm) (entries : List Entry) (output : String) :
    Prop where
  shows : Shows form entries output
  alike : ∀ entries', Shows form entries' output → List.Forall₂ Entry.Alike entries entries'

variable {form : Command.ListingForm} {entries entries' : List Entry} {output : String}

theorem Shows.alike (h : Shows form entries output) (h' : Shows form entries' output) :
    List.Forall₂ Entry.Alike entries entries' := by
  cases form with
  | text =>
    have htext : text entries = text entries' := by
      rw [← String.toList_inj, toList_text_eq_shown, toList_text_eq_shown]
      exact h.symm.trans h'
    exact text_eq_text_iff.mp htext
  | json =>
    obtain ⟨records, hparse, hrecords⟩ := h
    obtain ⟨records', hparse', hrecords'⟩ := h'
    obtain rfl : records = records' := Json.array.inj (Option.some.inj (hparse.symm.trans hparse'))
    obtain rfl := List.left_unique_forall₂' (fun _ _ _ h h' => h.unique h') hrecords hrecords'
    exact text_eq_text_iff.mp rfl

theorem shows_listing (form : Command.ListingForm) (entries : List Entry) :
    Shows form entries (Command.listing form entries) := by
  cases form with
  | text => exact toList_text_eq_shown entries
  | json =>
    have hgap : ∀ c ∈ "\n".toList, Json.isGap c := List.all_eq_true.mp rfl
    refine ⟨entries.map Entry.record, Json.parse?_pretty_append (plain_document entries) hgap, ?_⟩
    rw [List.forall₂_map_right_iff, List.forall₂_same]
    exact fun e _ => e.recorded

/-- **A listing shows its entries and no others.** -/
theorem presents_listing (form : Command.ListingForm) (entries : List Entry) :
    Presents form entries (Command.listing form entries) :=
  ⟨shows_listing form entries, fun _ h => (shows_listing form entries).alike h⟩

end Listing

end TriCore
