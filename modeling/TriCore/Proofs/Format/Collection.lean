import TriCore.Proofs.Format.Site

/-!
# How operands are collected

Collecting the operands of a layout goes source by source, either to the end or to the first source
that is rejected, and never faults. The collection is described here as a relation between the
sources, the operands that they add and the result, so that each property of the operands is one
induction over the course of the collection. A repetition copies the operand just added; no layout
starts with one, so that it always has an operand to copy.

## Main definitions

* `Descriptor.register?`, `RegisterFile.entry?` : the class that is declared for a slot, and the
  entry of a bank that a number selects.
* `Format.Source.Yields`, `Format.Source.Rejects` : what one source does.
* `Format.Collects` : the sources add the given operands behind others, and end with a result.

## Main results

* `Format.exists_collects` : collecting from sources in range adds operands to the draft.
* `Format.decode_cases` : what reading the operands of a format does, in three cases.
* `Format.Collects.forall_mem` : what is true of each operand that a source yields is true of all
  the operands that are added.
-/

namespace TriCore

/-! ### Classes and entries -/

/-- The class that a descriptor declares for a slot, if it declares the slot a register. -/
def Descriptor.register? (d : Descriptor) (slot : Nat) : Option RegisterClass :=
  match d.operand? slot with
  | some (.register cls) => some cls
  | _ => none

namespace RegisterFile

/-- The entry of the bank of a class that an encoded number selects. The number is halved for a
class of pairs. -/
def entry? (file : RegisterFile) (cls : RegisterClass) (number : BitVec 32) : Option Register :=
  (file.bank cls)[cls.position number]?

/-- A number of four bits names the entry that it selects. -/
theorem resolve_eq_match_entry? (file : RegisterFile) (cls : RegisterClass) {number : BitVec 32}
    (h : number.toNat < 16) :
    file.resolve cls number =
      match file.entry? cls number with
      | some register => .ok register
      | none => .error (.invalidRegisterIndex cls number) :=
  resolve_of_lt file cls h

theorem resolveSlot_eq_match_register? (file : RegisterFile) (d : Descriptor) (slot : Nat)
    (number : BitVec 32) :
    file.resolveSlot (d.operand? slot) slot number =
      match d.register? slot with
      | some cls => (file.resolve cls number).map (cls, ·)
      | none => .error (.undeclaredRegister slot) := by
  unfold resolveSlot Descriptor.register?
  rcases d.operand? slot with _ | cls | - <;> rfl

end RegisterFile

end TriCore

namespace TriCore.Format

open Source

/-! ### Layouts -/

/-- What slot `0` is declared to be decides what comes first, if it is declared at all. -/
theorem leadsWithRegister_cases (d : Descriptor) :
    d.operand? 0 = none ∧ leadsWithRegister d = .error (.undeclaredRegister 0) ∨
    d.operand? 0 = some .immediate ∧ leadsWithRegister d = .ok false ∨
    ∃ cls, d.operand? 0 = some (.register cls) ∧ leadsWithRegister d = .ok true := by
  unfold leadsWithRegister
  rcases d.operand? 0 with _ | cls | -
  · exact .inl ⟨rfl, rfl⟩
  · exact .inr (.inr ⟨cls, rfl, rfl⟩)
  · exact .inr (.inl ⟨rfl, rfl⟩)

/-- There is no layout only if a format cannot order its operands, because nothing is declared for
slot `0`. -/
theorem eq_of_layout_eq_error {f : Format} {d : Descriptor} {error : DecodeError}
    (h : f.layout d = .error error) :
    (f = .abs ∨ f = .rlc) ∧ d.operand? 0 = none ∧ error = .undeclaredRegister 0 := by
  have unordered {g : Bool → List Source} (h : (leadsWithRegister d).map g = .error error) :
      d.operand? 0 = none ∧ error = .undeclaredRegister 0 := by
    rcases leadsWithRegister_cases d with ⟨hnone, hlead⟩ | ⟨-, hlead⟩ | ⟨-, -, hlead⟩
    · rw [hlead] at h
      cases h
      exact ⟨hnone, rfl⟩
    · rw [hlead] at h
      cases h
    · rw [hlead] at h
      cases h
  cases f
  case abs => exact ⟨.inl rfl, unordered h⟩
  case rlc => exact ⟨.inr rfl, unordered h⟩
  all_goals cases h

/-- No layout starts with a repetition. -/
theorem head?_layouts_ne_again (f : Format) :
    ∀ sources ∈ f.layouts, sources.head? ≠ some again := by
  cases f <;> decide

/-! ### What one source does -/

/-- A source yields an operand behind the operands `before`. -/
inductive Source.Yields (context : Context) (bits : BitVec 32) (before : List Operand) :
    Source → Operand → Prop
  | data {offset : Nat} {register : Register}
      (hentry : context.registers.entry? .data ((registerField offset).extract bits) =
        some register) :
      Yields context bits before (.data offset) (.register .data register)
  | declared {offset : Nat} {cls : RegisterClass} {register : Register}
      (hclass : context.descriptor.register? before.length = some cls)
      (hentry : context.registers.entry? cls ((registerField offset).extract bits) =
        some register) :
      Yields context bits before (.declared offset) (.register cls register)
  | again {operand : Operand} (hlast : before.getLast? = some operand) :
      Yields context bits before .again operand
  | immediate {pieces : List Fragment} :
      Yields context bits before (.immediate pieces)
        (.ofField (Fragment.gather pieces bits) (Fragment.totalWidth pieces))

/-- A source is rejected behind the operands `before`: a register is missing from its bank, or a
slot is not declared a register. -/
inductive Source.Rejects (context : Context) (bits : BitVec 32) (before : List Operand) :
    Source → DecodeError → Prop
  | data {offset : Nat}
      (hentry : context.registers.entry? .data ((registerField offset).extract bits) = none) :
      Rejects context bits before (.data offset)
        (.invalidRegisterIndex .data ((registerField offset).extract bits))
  | declared {offset : Nat} {cls : RegisterClass}
      (hclass : context.descriptor.register? before.length = some cls)
      (hentry : context.registers.entry? cls ((registerField offset).extract bits) = none) :
      Rejects context bits before (.declared offset)
        (.invalidRegisterIndex cls ((registerField offset).extract bits))
  | undeclared {offset : Nat} (hclass : context.descriptor.register? before.length = none) :
      Rejects context bits before (.declared offset) (.undeclaredRegister before.length)

/-- A source yields an operand or is rejected, but for a repetition behind nothing. -/
theorem Source.attempt_cases (context : Context) (bits : BitVec 32) {before : List Operand}
    {source : Source} (h : source = again → before ≠ []) :
    (∃ operand, source.attempt context bits before = .ok (some operand) ∧
      source.Yields context bits before operand) ∨
    ∃ error, source.attempt context bits before = .error error ∧
      source.Rejects context bits before error := by
  cases source with
  | data offset =>
    have hlt := Site.toNat_extract_registerField_lt offset bits
    rw [attempt, context.registers.resolve_eq_match_entry? .data hlt]
    cases hentry : context.registers.entry? .data ((registerField offset).extract bits) with
    | some register => exact .inl ⟨_, rfl, .data hentry⟩
    | none => exact .inr ⟨_, rfl, .data hentry⟩
  | declared offset =>
    have hlt := Site.toNat_extract_registerField_lt offset bits
    rw [attempt, RegisterFile.resolveSlot_eq_match_register?]
    cases hclass : context.descriptor.register? before.length with
    | none => exact .inr ⟨_, rfl, .undeclared hclass⟩
    | some cls =>
      dsimp only
      rw [context.registers.resolve_eq_match_entry? cls hlt]
      cases hentry : context.registers.entry? cls ((registerField offset).extract bits) with
      | some register => exact .inl ⟨_, rfl, .declared hclass hentry⟩
      | none => exact .inr ⟨_, rfl, .declared hclass hentry⟩
  | again =>
    cases hlast : before.getLast? with
    | some operand => exact .inl ⟨operand, congrArg Except.ok hlast, .again hlast⟩
    | none => exact absurd (List.getLast?_eq_none_iff.mp hlast) (h rfl)
  | immediate pieces => exact .inl ⟨_, rfl, .immediate⟩

/-! ### The course of a collection -/

/-- Behind the operands `before`, the sources yield the operands `fresh` one after the other, until
they are all used or one of them is rejected. -/
inductive Collects (context : Context) (bits : BitVec 32) :
    List Operand → List Source → List Operand → Except DecodeError Unit → Prop
  | done {before : List Operand} : Collects context bits before [] [] (.ok ())
  | rejected {before : List Operand} {source : Source} {sources : List Source}
      {error : DecodeError} (hsource : source.Rejects context bits before error) :
      Collects context bits before (source :: sources) [] (.error error)
  | yielded {before : List Operand} {source : Source} {sources : List Source} {operand : Operand}
      {fresh : List Operand} {result : Except DecodeError Unit}
      (hsource : source.Yields context bits before operand)
      (hrest : Collects context bits (before ++ [operand]) sources fresh result) :
      Collects context bits before (source :: sources) (operand :: fresh) result

/-- Collecting from sources in range adds operands to the draft. -/
theorem exists_collects (context : Context) (w : Word) {sources : List Source}
    (hrange : ∀ source ∈ sources, source.InRange) (draft : Draft)
    (hhead : sources.head? = some again → draft.operands ≠ []) :
    ∃ fresh result, collect context w sources draft = ⟨draft.append fresh, orReject result⟩ ∧
      Collects context w.bits draft.operands sources fresh result := by
  induction sources generalizing draft with
  | nil => exact ⟨[], .ok (), by simp only [collect, Draft.append, List.append_nil]; rfl, .done⟩
  | cons source sources ih =>
    have hbehind : source = again → draft.operands ≠ [] := fun hagain =>
      hhead (by rw [hagain, List.head?_cons])
    rw [collect, operand?_eq_attempt (hrange source List.mem_cons_self)]
    rcases attempt_cases context w.bits hbehind with
      ⟨operand, hattempt, hyields⟩ | ⟨error, hattempt, hrejects⟩
    · obtain ⟨fresh, result, hcollect, hcollects⟩ := ih
        (fun source hs => hrange source (List.mem_cons_of_mem _ hs)) (draft.append [operand])
        fun _ => List.append_ne_nil_of_right_ne_nil _ (List.cons_ne_nil _ _)
      refine ⟨operand :: fresh, result, ?_, .yielded hyields hcollects⟩
      rw [hattempt]
      refine hcollect.trans ?_
      simp only [Draft.append, List.append_assoc, List.singleton_append]
    · refine ⟨[], .error error, ?_, .rejected hrejects⟩
      rw [hattempt]
      simp only [Draft.append, List.append_nil]
      rfl

/-- What reading the operands of a format does: nothing to a word that does not fit; nothing if the
descriptor does not order the operands; and else it collects them from a layout. -/
theorem decode_cases (f : Format) (context : Context) (w : Word) (draft : Draft) :
    (¬f.Fits w ∧ f.decode context w draft = ⟨draft, .error (.rejected (.widthMismatch f.width))⟩) ∨
    (f.Fits w ∧ (f = .abs ∨ f = .rlc) ∧ context.descriptor.operand? 0 = none ∧
      f.decode context w draft = ⟨draft, .error (.rejected (.undeclaredRegister 0))⟩) ∨
    (f.Fits w ∧ ∃ sources fresh result, f.layout context.descriptor = .ok sources ∧
      f.decode context w draft = ⟨draft.append fresh, orReject result⟩ ∧
      Collects context w.bits draft.operands sources fresh result) := by
  unfold decode
  by_cases hfits : f.Fits w
  · rw [if_pos hfits]
    cases hlayout : f.layout context.descriptor with
    | error error =>
      obtain ⟨hformat, hnone, rfl⟩ := eq_of_layout_eq_error hlayout
      exact .inr (.inl ⟨hfits, hformat, hnone, rfl⟩)
    | ok sources =>
      obtain ⟨fresh, result, hcollect, hcollects⟩ := exists_collects context w
        (inRange_of_layout hlayout) draft
        fun hagain => absurd hagain (head?_layouts_ne_again f sources (mem_layouts hlayout))
      exact .inr (.inr ⟨hfits, sources, fresh, result, rfl, hcollect, hcollects⟩)
  · exact .inl ⟨hfits, if_neg hfits⟩

namespace Collects

variable {context : Context} {bits : BitVec 32} {before fresh : List Operand}
  {sources : List Source} {result : Except DecodeError Unit}

theorem length_le (h : Collects context bits before sources fresh result) :
    fresh.length ≤ sources.length := by
  induction h with
  | done => exact Nat.le_refl 0
  | rejected _ => exact Nat.zero_le _
  | yielded _ _ ih => exact Nat.succ_le_succ ih

/-- A collection that comes to its end adds one operand for each source. -/
theorem length_eq (h : Collects context bits before sources fresh (.ok ())) :
    fresh.length = sources.length := by
  generalize hresult : Except.ok () = result at h
  induction h with
  | done => rfl
  | rejected _ => cases hresult
  | yielded _ _ ih => exact congrArg Nat.succ (ih hresult)

/-- What is true of each operand that a source other than a repetition yields, and of the operand
that a leading repetition repeats, is true of all the operands that are added. -/
theorem forall_mem {P : Operand → Prop} (h : Collects context bits before sources fresh result)
    (hyields : ∀ source ∈ sources, source ≠ again → ∀ before operand,
      source.Yields context bits before operand → P operand)
    (hhead : sources.head? = some again → ∀ operand, before.getLast? = some operand → P operand) :
    ∀ operand ∈ fresh, P operand := by
  induction h with
  | done => exact List.forall_mem_nil P
  | rejected _ => exact List.forall_mem_nil P
  | @yielded before source sources operand fresh result hsource hrest ih =>
    have hoperand : P operand := by
      by_cases hagain : source = again
      · subst hagain
        cases hsource with
        | again hlast => exact hhead rfl operand hlast
      · exact hyields source List.mem_cons_self hagain before operand hsource
    -- The operand just added is the one that a repetition behind it repeats.
    have htail := ih (fun source hs => hyields source (List.mem_cons_of_mem _ hs))
      fun _ other hlast => by
        rw [List.getLast?_concat] at hlast
        exact Option.some.inj hlast ▸ hoperand
    exact List.forall_mem_cons.mpr ⟨hoperand, htail⟩

end Collects

end TriCore.Format
