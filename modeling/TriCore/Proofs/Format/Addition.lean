import TriCore.Proofs.Format.Collection
import TriCore.Proofs.Word.Gather

/-!
# What a format adds to a draft

Whatever a draft holds and whatever the descriptor declares, reading the operands of a format leaves
the draft's opcode and operands alone and adds at most five operands behind them, also if it is
rejected halfway. Each new operand can be traced to the bits of the word. An immediate is all that
its pieces hold, and the number of bits recorded with it is theirs: it is small enough that nothing
is lost when it is kept in eight bits. A register is the entry of a bank that four bits of the word
select. A repetition copies the operand just added, so that it adds nothing else.

## Main definitions

* `Format.Source.Measured` : the pieces of an immediate end within the bits that they hold together.
* `Operand.ReadFrom` : the operand is what one of the sources says of the bits.

## Main results

* `Format.Collects.readFrom` : all operands that are added are read from the sources.
* `Format.decode_adds` : what is added to a draft, and when nothing is.
-/

namespace TriCore

open Format.Source

/-- The operand is what one of the sources says of the bits: a register is the entry that four bits
select in the bank of its class, and an immediate is what its pieces hold, with the number of their
bits. -/
def Operand.ReadFrom (file : RegisterFile) (bits : BitVec 32) (sources : List Format.Source) :
    Operand → Prop
  | register cls r =>
    ∃ offset, (data offset ∈ sources ∨ declared offset ∈ sources) ∧
      file.entry? cls ((registerField offset).extract bits) = some r
  | immediate value count =>
    ∃ pieces, Format.Source.immediate pieces ∈ sources ∧ value = Fragment.gather pieces bits ∧
      count = UInt8.ofNat (Fragment.totalWidth pieces)

end TriCore

namespace TriCore.Format

open Source

/-! ### Immediates -/

/-- The pieces of an immediate hold between one and twenty-four bits, and none of them is placed
above these. -/
def Source.Measured : Source → Prop
  | immediate pieces =>
    0 < Fragment.totalWidth pieces ∧ Fragment.totalWidth pieces ≤ 24 ∧
      ∀ piece ∈ pieces, piece.shift + piece.field.width ≤ Fragment.totalWidth pieces
  | _ => True

instance : (source : Source) → Decidable source.Measured
  | data _ | declared _ | again => .isTrue trivial
  | immediate pieces => inferInstanceAs (Decidable (_ ∧ _ ∧ ∀ piece ∈ pieces, _))

theorem measured_layouts (f : Format) :
    ∀ sources ∈ f.layouts, ∀ source ∈ sources, source.Measured := by
  cases f <;> decide

theorem length_layouts (f : Format) :
    ∀ sources ∈ f.layouts, 0 < sources.length ∧ sources.length ≤ 5 := by
  cases f <;> decide

/-- The number of bits of an immediate is kept in eight bits without loss, and the value fits in
that many bits. -/
theorem Source.Measured.fits {pieces : List Fragment} (h : (immediate pieces).Measured)
    (bits : BitVec 32) :
    (UInt8.ofNat (Fragment.totalWidth pieces)).toNat = Fragment.totalWidth pieces ∧
      (Fragment.gather pieces bits).toNat < 2 ^ Fragment.totalWidth pieces := by
  obtain ⟨-, hle, hpieces⟩ := h
  refine ⟨UInt8.toNat_ofNat_of_lt' ?_, Fragment.toNat_gather_lt hpieces bits⟩
  exact Nat.lt_of_le_of_lt hle (by decide)

/-! ### Tracing operands to the word -/

section

variable {context : Context} {bits : BitVec 32} {before fresh : List Operand}
  {sources : List Source} {result : Except DecodeError Unit}

theorem Source.Yields.readFrom {source : Source} {operand : Operand}
    (h : source.Yields context bits before operand) (hagain : source ≠ .again)
    (hmem : source ∈ sources) : operand.ReadFrom context.registers bits sources := by
  cases h with
  | data hentry => exact ⟨_, .inl hmem, hentry⟩
  | declared _ hentry => exact ⟨_, .inr hmem, hentry⟩
  | again => exact absurd rfl hagain
  | immediate => exact ⟨_, hmem, rfl, rfl⟩

/-- All operands that are added are read from the sources, if these do not begin with a
repetition. -/
theorem Collects.readFrom (h : Collects context bits before sources fresh result)
    (hhead : sources.head? ≠ some again) :
    ∀ operand ∈ fresh, operand.ReadFrom context.registers bits sources :=
  h.forall_mem (fun _ hmem hagain _ _ hyields => hyields.readFrom hagain hmem)
    fun hagain => absurd hagain hhead

/-- Sources are not rejected for the width of the word. -/
theorem Collects.ne_widthMismatch (h : Collects context bits before sources fresh result)
    (expected : Width) : result ≠ .error (.widthMismatch expected) := by
  induction h with
  | done => exact fun h => by cases h
  | rejected hsource =>
    cases hsource <;> exact fun h => by cases h
  | yielded _ _ ih => exact ih

end

/-! ### What is added -/

/-- An immediate that is read from a layout is known with all its bits, of which there are between
one and twenty-four. -/
theorem bounds_of_readFrom {f : Format} {sources : List Source} (hsources : sources ∈ f.layouts)
    {file : RegisterFile} {bits : BitVec 32} {value : BitVec 32} {count : UInt8}
    (h : (Operand.immediate value count).ReadFrom file bits sources) :
    1 ≤ count.toNat ∧ count.toNat ≤ 24 ∧ value.toNat < 2 ^ count.toNat ∧
      ∃ pieces, .immediate pieces ∈ sources ∧ value = Fragment.gather pieces bits ∧
        count.toNat = Fragment.totalWidth pieces := by
  obtain ⟨pieces, hpieces, rfl, rfl⟩ := h
  have hmeasured := measured_layouts f sources hsources _ hpieces
  obtain ⟨hcount, hlt⟩ := hmeasured.fits bits
  rw [hcount]
  exact ⟨hmeasured.1, hmeasured.2.1, hlt, pieces, hpieces, rfl, rfl⟩

/-- The width is reported exactly for words that do not fit the format. -/
theorem result_eq_widthMismatch_iff (f : Format) (context : Context) (w : Word) (draft : Draft)
    (expected : Width) :
    (f.decode context w draft).result = .error (.rejected (.widthMismatch expected)) ↔
      expected = f.width ∧ ¬f.Fits w := by
  rcases f.decode_cases context w draft with ⟨hfits, hdecode⟩ |
    ⟨hfits, -, -, hdecode⟩ | ⟨hfits, sources, fresh, result, -, hdecode, hcollects⟩
  · rw [hdecode, and_iff_left hfits]
    exact ⟨fun h => (by cases h; rfl), fun h => by rw [h]⟩
  · rw [hdecode]
    exact ⟨fun h => (by cases h), fun h => absurd hfits h.2⟩
  · rw [hdecode]
    refine ⟨fun h => ?_, fun h => absurd hfits h.2⟩
    cases result with
    | ok _ => cases h
    | error error =>
      cases h
      exact absurd rfl (hcollects.ne_widthMismatch expected)

/-- At most five operands are added to a draft. They are read from the layout of the format, and
there is one if reading succeeds. -/
theorem exists_fresh (f : Format) (context : Context) (w : Word) (draft : Draft) :
    ∃ fresh, (f.decode context w draft).draft = draft.append fresh ∧ fresh.length ≤ 5 ∧
      (∀ operand ∈ fresh, f.Fits w ∧ ∃ sources, f.layout context.descriptor = .ok sources ∧
        operand.ReadFrom context.registers w.bits sources) ∧
      ((f.decode context w draft).result = .ok () → fresh ≠ []) := by
  have unchanged {error : DecodeError}
      (h : f.decode context w draft = ⟨draft, .error (.rejected error)⟩) :
      (f.decode context w draft).draft = draft.append [] ∧
        (f.decode context w draft).result ≠ .ok () := by
    rw [h, Draft.append, List.append_nil]
    exact ⟨rfl, fun hok => by cases hok⟩
  rcases f.decode_cases context w draft with ⟨-, hdecode⟩ |
    ⟨-, -, -, hdecode⟩ | ⟨hfits, sources, fresh, result, hlayout, hdecode, hcollects⟩
  · obtain ⟨hdraft, hfails⟩ := unchanged hdecode
    exact ⟨[], hdraft, by decide, List.forall_mem_nil _, fun hok => absurd hok hfails⟩
  · obtain ⟨hdraft, hfails⟩ := unchanged hdecode
    exact ⟨[], hdraft, by decide, List.forall_mem_nil _, fun hok => absurd hok hfails⟩
  · have hsources := mem_layouts hlayout
    obtain ⟨hpos, hfive⟩ := length_layouts f sources hsources
    have hread := hcollects.readFrom (head?_layouts_ne_again f sources hsources)
    rw [hdecode]
    refine ⟨fresh, rfl, Nat.le_trans hcollects.length_le hfive,
      fun operand hmem => ⟨hfits, sources, hlayout, hread operand hmem⟩, fun hok hnil => ?_⟩
    cases result with
    | error error => cases hok
    | ok _ =>
      have hlength := hcollects.length_eq
      rw [hnil, List.length_nil] at hlength
      exact Nat.ne_of_lt hpos hlength

/-- **What a format may do to a draft.** Reading the operands of a format never faults. It leaves
the opcode of the draft and the operands that it holds alone, and adds at most five operands behind
them, whether it succeeds or is rejected. Each immediate among them is what the pieces of a source
of the format hold, together with the number of their bits, which is from `1` to `24`, and the value
fits in that many bits. Each register is the entry of the bank of its class that a field of four
bits in the word selects. The width is what is wrong exactly if the word has another width than the
format or its bit `0` says so, and then nothing is added. If reading succeeds, something is. -/
theorem decode_adds (f : Format) (context : Context) (w : Word) (draft : Draft) :
    ∃ fresh result,
      f.decode context w draft = ⟨⟨draft.opcode, draft.operands ++ fresh⟩, result⟩ ∧
      fresh.length ≤ 5 ∧
      (∀ value count, .immediate value count ∈ fresh →
        1 ≤ count.toNat ∧ count.toNat ≤ 24 ∧ value.toNat < 2 ^ count.toNat ∧
        ∃ sources pieces, f.layout context.descriptor = .ok sources ∧
          .immediate pieces ∈ sources ∧ value = Fragment.gather pieces w.bits ∧
          count.toNat = Fragment.totalWidth pieces) ∧
      (∀ cls r, .register cls r ∈ fresh →
        ∃ offset, (registerField offset).Inside w.width ∧
          (context.registers.bank cls)[cls.position
            ((registerField offset).extract w.bits)]? = some r) ∧
      (∀ expected, result = .error (.rejected (.widthMismatch expected)) ↔
        expected = f.width ∧ (w.width ≠ f.width ∨ w.isLongForm ≠ decide (f.width = .long))) ∧
      (∀ expected, result = .error (.rejected (.widthMismatch expected)) → fresh = []) ∧
      (result = .ok () → fresh ≠ []) ∧
      ∀ field, result ≠ .error (.fault field) := by
  have hunfit : ¬f.Fits w ↔ w.width ≠ f.width ∨ w.isLongForm ≠ decide (f.width = .long) :=
    Decidable.not_and_iff_not_or_not
  have hwidth := f.result_eq_widthMismatch_iff context w draft
  obtain ⟨fresh, hdraft, hfive, hread, hok⟩ := f.exists_fresh context w draft
  have hdecode : f.decode context w draft =
      ⟨draft.append fresh, (f.decode context w draft).result⟩ := by rw [← hdraft]
  refine ⟨fresh, _, hdecode, hfive, ?_, ?_, ?_, ?_, hok, f.decode_ne_fault context w draft⟩
  · intro value count hmem
    obtain ⟨-, sources, hlayout, hfrom⟩ := hread _ hmem
    obtain ⟨hpos, hle, hlt, pieces, hpieces⟩ := bounds_of_readFrom (mem_layouts hlayout) hfrom
    exact ⟨hpos, hle, hlt, sources, pieces, hlayout, hpieces⟩
  · intro cls r hmem
    obtain ⟨hfits, sources, hlayout, offset, hoffset, hentry⟩ := hread _ hmem
    refine ⟨offset, ?_, hentry⟩
    rw [hfits.1]
    rcases hoffset with hdata | hdeclared
    · exact inside_of_layout hlayout _ hdata
    · exact inside_of_layout hlayout _ hdeclared
  · intro expected
    rw [hwidth, hunfit]
  · intro expected h
    refine List.eq_nil_iff_forall_not_mem.mpr fun operand hmem => ?_
    exact ((hwidth expected).mp h).2 (hread operand hmem).1

/-- A tied destination behind an operand that is there already: five operands are added, the slots
of their classes are counted from the operand before them, and the pair is selected by half of its
number. -/
theorem decode_adds_tied :
    let context : Context :=
      ⟨.standard, .tied [.immediate, .data, .immediate, .address, .extended]⟩
    rr.decode context (.long 0x3F02A50B) ⟨.addRr, [.immediate 7 4]⟩ =
        ⟨⟨.addRr, [.immediate 7 4, .register .data ⟨20⟩, .register .data ⟨20⟩,
          .register .address ⟨6⟩, .register .extended ⟨38⟩, .immediate 2 2]⟩, .ok ()⟩ ∧
      ∃ fresh, (rr.decode context (.long 0x3F02A50B) ⟨.addRr, [.immediate 7 4]⟩).draft =
          ⟨.addRr, [.immediate 7 4] ++ fresh⟩ ∧ fresh.length ≤ 5 ∧ fresh ≠ [] := by
  intro context
  have hrun : rr.decode context (.long 0x3F02A50B) ⟨.addRr, [.immediate 7 4]⟩ =
      ⟨⟨.addRr, [.immediate 7 4, .register .data ⟨20⟩, .register .data ⟨20⟩,
        .register .address ⟨6⟩, .register .extended ⟨38⟩, .immediate 2 2]⟩, .ok ()⟩ := by rfl
  obtain ⟨fresh, result, hdecode, hfive, -, -, -, -, hok, -⟩ :=
    decode_adds rr context (.long 0x3F02A50B) ⟨.addRr, [.immediate 7 4]⟩
  have hresult : result = .ok () := congrArg Collected.result (hdecode.symm.trans hrun)
  exact ⟨hrun, fresh, congrArg Collected.draft hdecode, hfive, hok hresult⟩

end TriCore.Format
