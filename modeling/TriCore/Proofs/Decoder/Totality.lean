import TriCore.Proofs.Decoder.WidthSelector
import TriCore.Proofs.Sweep.Concatenation

/-!
# Decoding never faults

A fault is the only way in which decoding can fail to say anything about the bytes: a field was to
be read that is not in the word. The architecture's tables name no such field, and no format does,
whatever the descriptor. So a decoder with these tables either decodes what it is given or rejects
it, and this needs nothing of its registers, its descriptors and its features.

## Main definitions

* `Concludes` : an attempt ends with a value or a rejection.
* `Decoder.Total` : everything that a decoder is asked to decode concludes.
* `Decision.Table.Inside` : the fields of a table lie inside the words of its width.

## Main results

* `Decoder.TablesInRange.total` : a decoder whose tables read no field outside a word is total.
* `Decision.Table.inside_ofWidth` : the fields of the architecture's tables.
* `Decoder.total_ofParts` : a decoder with the architecture's tables is total, and everything that
  tables and formats read lies inside their words.
-/

namespace TriCore

/-! ### Attempts that conclude -/

/-- The attempt ends with a value or with a rejection. -/
def Concludes {α : Type} (attempt : Except Halt α) : Prop :=
  (∃ value, attempt = .ok value) ∨ ∃ error, attempt = .error (.rejected error)

/-- All that keeps an attempt from a conclusion is a fault. -/
theorem concludes_iff {α : Type} {attempt : Except Halt α} :
    Concludes attempt ↔ ∀ field, attempt ≠ .error (.fault field) := by
  unfold Concludes
  rcases attempt with (error | field) | value
  · simp
  · simp
  · simp

theorem Format.concludes_decode (f : Format) (context : Context) (w : Word) (draft : Draft) :
    Concludes (f.decode context w draft).result :=
  concludes_iff.mpr (f.decode_ne_fault context w draft)

/-! ### Fields of tables -/

namespace Decision

/-- The field that an operation reads, if any, lies inside the words of a width. -/
def Op.Inside (width : Width) : Op → Prop
  | extract field | test field _ _ => field.Inside width
  | _ => True

instance (width : Width) : (op : Op) → Decidable (op.Inside width)
  | .extract field | .test field _ _ => inferInstanceAs (Decidable (field.Inside width))
  | .filter .. | .gate .. | .commit _ | .propose .. | .fail => .isTrue trivial

theorem Op.Inside.inRange {width : Width} {op : Op} (h : op.Inside width) : op.InRange := by
  cases op with
  | extract field => exact Field.Inside.inRange h
  | test field value skip => exact Field.Inside.inRange h
  | _ => trivial

/-- Every field that a table reads lies inside the words of the table's width. -/
def Table.Inside (t : Table) : Prop := ∀ op ∈ t.ops, op.Inside t.width

instance (t : Table) : Decidable t.Inside := inferInstanceAs (Decidable (∀ op ∈ t.ops, _))

theorem Table.Inside.inRange {t : Table} (h : t.Inside) : t.InRange :=
  fun op hop => (h op hop).inRange

/-- Every field of the architecture's tables lies inside the words of the table's width. -/
theorem Table.inside_ofWidth (width : Width) : (ofWidth width).Inside := by
  cases width <;> decide +kernel

end Decision

/-! ### Decoders -/

namespace Decoder

variable {d : Decoder}

/-- Everything that a decoder is asked to decode concludes. -/
structure Total (d : Decoder) : Prop where
  word : ∀ w address, Concludes (d.decodeWord w address)
  bytes : ∀ bytes address, Concludes (d.decode bytes address)
  buffer : ∀ bytes base, Concludes (d.decodeAll bytes base)
  step : ∀ (s t : Sweep) (a : Attempt), s.decoder = d → s.next? = some (a, t) → Concludes a.result

/-- Bytes that end before a word does are rejected, and all others hold the words that are tried. -/
theorem decode_ne_fault (hd : d.TablesInRange) (bytes : List UInt8) (address : UInt64)
    (field : Field) : d.decode bytes address ≠ .error (.fault field) := by
  have fetched (width : Width) : Word.fetch width bytes ≠ .error (.fault field) := fun hfetch =>
    nomatch (Word.fetch_eq_error_iff.mp hfetch).2
  intro hfault
  rw [decode_eq] at hfault
  cases hshort : Word.fetch .short bytes with
  | error halt =>
    simp only [hshort] at hfault
    cases hfault
    exact fetched .short hshort
  | ok short =>
    rw [hshort] at hfault
    rcases hfirst : d.decodeWord short address with (error | field') | i
    · cases hlong : Word.fetch .long bytes with
      | error halt =>
        simp only [hfirst, hlong] at hfault
        cases hfault
        exact fetched .long hlong
      | ok long =>
        simp only [hfirst, hlong] at hfault
        exact decodeWord_ne_fault hd field hfault
    · exact decodeWord_ne_fault hd field' hfirst
    · simp [hfirst] at hfault

/-- A buffer fails as one of the attempts of its sweep does, and each of them decodes bytes. -/
theorem decodeAll_ne_fault (hd : d.TablesInRange) (bytes : List UInt8) (base : UInt64)
    (field : Field) : d.decodeAll bytes base ≠ .error (.fault field) := by
  intro hfault
  obtain ⟨before, a, after, hsweep, -, hresult⟩ := decodeAll_eq_error_iff.mp hfault
  have ha : a ∈ d.sweep bytes base :=
    hsweep ▸ List.mem_append_right before List.mem_cons_self
  rw [(Sweep.decodes_of_mem hd ha).2] at hresult
  exact decode_ne_fault hd _ _ field hresult

theorem TablesInRange.total (hd : d.TablesInRange) : d.Total where
  word _ _ := concludes_iff.mpr fun field => decodeWord_ne_fault hd field
  bytes bytes address := concludes_iff.mpr (decode_ne_fault hd bytes address)
  buffer bytes base := concludes_iff.mpr (decodeAll_ne_fault hd bytes base)
  step s t a hs hnext := by
    obtain ⟨-, rfl, -⟩ := Sweep.next?_eq_some_iff.mp hnext
    subst hs
    exact concludes_iff.mpr (decode_ne_fault hd s.rest s.address)

/-- **Decoding is total.** With the architecture's tables and any registers, descriptors and
features, a decoder can be assembled. Every word, every byte string, every buffer and every step of
a sweep over one is decoded or rejected. So are the operands of every format in every word, whatever
the descriptor and whatever the draft holds. No field of the tables and no field or piece of the
formats lies outside the words of its width. -/
theorem total_ofParts (registers : RegisterFile) (descriptors : DescriptorTable)
    (features : Features) :
    (∃ d, ofParts registers descriptors .short .long features = .ok d ∧ d.Total) ∧
    (∀ (f : Format) context w draft, Concludes (f.decode context w draft).result) ∧
    (∀ width, (Decision.Table.ofWidth width).Inside) ∧
    ∀ (f : Format) descriptor sources, f.layout descriptor = .ok sources →
      ∀ source ∈ sources, source.Inside f.width := by
  have hshort : Decision.Table.short.InRange := (Decision.Table.inside_ofWidth .short).inRange
  have hlong : Decision.Table.long.InRange := (Decision.Table.inside_ofWidth .long).inRange
  have hparts : ofParts registers descriptors .short .long features =
      .ok ⟨registers, descriptors, .short, .long, features, rfl, rfl⟩ := rfl
  exact ⟨⟨_, hparts, (tablesInRange_of_ofParts hparts hshort hlong).total⟩,
    Format.concludes_decode, Decision.Table.inside_ofWidth, fun _ _ _ => Format.inside_of_layout⟩

/-- A decoder without registers, descriptors and features, which decodes a branch and rejects a
load, and a store to an absolute address that names no register. -/
theorem total_ofParts_bare :
    let registers : RegisterFile := ⟨fun _ => []⟩
    let store : List Format.Source := [.immediate Fragment.offset18]
    (∃ d, ofParts registers .empty .short .long .empty = .ok d ∧ d.Total ∧
      d.decodeWord (.short 0x043C) 8 = .ok ⟨.jSb, [.immediate 4 8], .short, 8⟩ ∧
      d.decodeWord (.long 0x85) 8 = .error (.rejected (.undeclaredRegister 0))) ∧
    Format.abs.layout (.plain [.immediate]) = .ok store ∧
    ∀ source ∈ store, source.Inside .long := by
  intro registers store
  obtain ⟨⟨d, hparts, htotal⟩, -, -, hlayouts⟩ := total_ofParts registers .empty .empty
  obtain rfl : ⟨registers, .empty, .short, .long, .empty, rfl, rfl⟩ = d := Except.ok.inj hparts
  have hstore : Format.abs.layout (.plain [.immediate]) = .ok store := rfl
  exact ⟨⟨_, hparts, htotal, rfl, rfl⟩, hstore, hlayouts _ _ _ hstore⟩

end Decoder

end TriCore
