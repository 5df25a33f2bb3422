import TriCore.Failure
import TriCore.Instruction
import TriCore.Listing
import TriCore.Proofs.Names

/-!
# Operands and failures in a listing

The written form of an operand is delimited: a register is a name and a number with a hash between
them, an immediate two numbers with a colon. The wording of a failure begins with a letter that
belongs to no other kind of failure, and its numbers and names can be taken out of it one after the
other. So an operand and a failure are known by their written form.

## Main results

* `Operand.delimited_text` : operands can be taken off the front of a text.
* `DecodeError.message_injective`, `Halt.message_injective` : no two failures are worded alike.
* `Operand.newline_not_mem_text`, `Halt.newline_not_mem_message` : there are no line ends in them.
-/

namespace TriCore

open Text

/-! ### Delimited parts -/

theorem Text.delimited_decimal : Delimited fun n : Nat => (decimal n).toList :=
  .of_isWord isWord_decimal fun _ _ h => decimal_injective (String.toList_inj.mp h)

theorem Text.delimited_hex : Delimited fun n : Nat => (hex n).toList :=
  .of_isWord isWord_hex fun _ _ h => hex_injective (String.toList_inj.mp h)

theorem Text.delimited_paddedHex (width : Nat) :
    Delimited fun n : Nat => (paddedHex width n).toList :=
  .of_isWord (isWord_paddedHex width) fun _ _ h =>
    paddedHex_injective width (String.toList_inj.mp h)

theorem Text.delimited_digitPair : Delimited digitPair :=
  .of_isWord isWord_digitPair digitPair_injective

theorem RegisterClass.delimited_name : Delimited fun cls : RegisterClass => cls.name.toList :=
  .of_isWord isWord_name fun _ _ h => name_injective (String.toList_inj.mp h)

theorem Width.delimited_name : Delimited fun w : Width => w.name.toList :=
  .of_isWord isWord_name fun _ _ h => name_injective (String.toList_inj.mp h)

theorem Opcode.delimited_name : Delimited fun o : Opcode => o.name.toList :=
  .of_isWord isWord_name fun _ _ h => name_injective (String.toList_inj.mp h)

/-! ### Operands -/

namespace Operand

theorem toList_text_register (cls : RegisterClass) (r : Register) :
    (register cls r).text.toList =
      cls.name.toList ++ ("#".toList ++ (decimal r.id.toNat).toList) := by
  simp only [text, String.toList_append, List.append_assoc]

theorem toList_text_immediate (value : BitVec 32) (bits : UInt8) :
    (immediate value bits).text.toList =
      (hex value.toNat).toList ++ (":".toList ++ (decimal bits.toNat).toList) := by
  simp only [text, String.toList_append, List.append_assoc]

/-- The name of a register class is not mistaken for the mark of a hexadecimal number. -/
theorem text_register_append_ne (cls : RegisterClass) (r : Register) (value : BitVec 32)
    (bits : UInt8) (us vs : List Char) :
    (register cls r).text.toList ++ us ≠ (immediate value bits).text.toList ++ vs := by
  rw [toList_text_register, toList_text_immediate, hex]
  cases cls <;> simp [RegisterClass.name]

/-- An operand is taken off the front of a text. -/
theorem delimited_text : Delimited fun o : Operand => o.text.toList := by
  intro o o' us vs hu hv h
  have hhash : EndsWord "#".toList := endsWord_of_head? (c := '#') (by simp) (by decide)
  have hcolon : EndsWord ":".toList := endsWord_of_head? (c := ':') (by simp) (by decide)
  cases o with
  | register cls r =>
    cases o' with
    | register cls' r' =>
      simp only [toList_text_register] at h
      obtain ⟨heq, hrest⟩ := RegisterClass.delimited_name.pair delimited_decimal hhash (by simp)
        (cls, r.id.toNat) (cls', r'.id.toNat) us vs hu hv h
      obtain ⟨rfl, hid⟩ := Prod.mk.inj heq
      obtain ⟨id⟩ := r
      obtain ⟨id'⟩ := r'
      obtain rfl := UInt16.toNat_inj.mp hid
      exact ⟨rfl, hrest⟩
    | immediate value bits => exact absurd h (text_register_append_ne cls r value bits us vs)
  | immediate value bits =>
    cases o' with
    | register cls r => exact absurd h.symm (text_register_append_ne cls r value bits vs us)
    | immediate value' bits' =>
      simp only [toList_text_immediate] at h
      obtain ⟨heq, hrest⟩ := delimited_hex.pair delimited_decimal hcolon (by simp)
        (value.toNat, bits.toNat) (value'.toNat, bits'.toNat) us vs hu hv h
      obtain ⟨hvalue, hbits⟩ := Prod.mk.inj heq
      obtain rfl := BitVec.eq_of_toNat_eq hvalue
      obtain rfl := UInt8.toNat_inj.mp hbits
      exact ⟨rfl, hrest⟩

end Operand

/-! ### Failures -/

namespace DecodeError

/-- The letter that the wording of a rejection begins with. -/
def initial : DecodeError → Char
  | insufficientData .. => 'i'
  | noTableMatch .. => 'n'
  | invalidRegisterIndex .. => 'r'
  | undeclaredRegister .. => 'o'
  | widthMismatch .. => 'w'

theorem head?_toList_message (e : DecodeError) : e.message.toList.head? = some e.initial := by
  unfold message initial
  cases e <;> simp only [String.toList_append, List.append_assoc, List.head?_append] <;> simp

/-- No two rejections are worded alike. -/
theorem message_injective : Function.Injective message := by
  intro e e' h
  have hinitial : e.initial = e'.initial := by
    have hhead := e.head?_toList_message
    rw [h, e'.head?_toList_message] at hhead
    exact (Option.some.inj hhead).symm
  cases e with
  | insufficientData needed available =>
    cases e' with
    | insufficientData needed' available' =>
      unfold message at h
      simp only [← String.toList_inj, String.toList_append, List.append_assoc] at h
      have hsep : EndsWord " bytes, have ".toList :=
        endsWord_of_head? (c := ' ') (by simp) (by decide)
      obtain ⟨rfl, rfl⟩ := delimited_decimal.pair_inj delimited_decimal hsep (by simp)
        (List.append_cancel_left h)
      rfl
    | _ => cases hinitial
  | noTableMatch bits width =>
    cases e' with
    | noTableMatch bits' width' =>
      unfold message at h
      simp only [← String.toList_inj, String.toList_append, List.append_assoc] at h
      have hsep : EndsWord " word ".toList := endsWord_of_head? (c := ' ') (by simp) (by decide)
      obtain ⟨rfl, hbits⟩ := Width.delimited_name.pair_inj (delimited_paddedHex 8) hsep (by simp)
        (List.append_cancel_left h)
      rw [BitVec.eq_of_toNat_eq hbits]
    | _ => cases hinitial
  | invalidRegisterIndex cls index =>
    cases e' with
    | invalidRegisterIndex cls' index' =>
      unfold message at h
      simp only [← String.toList_inj, String.toList_append, List.append_assoc] at h
      have hsep : EndsWord " out of range for class ".toList :=
        endsWord_of_head? (c := ' ') (by simp) (by decide)
      obtain ⟨hindex, rfl⟩ := delimited_decimal.pair_inj RegisterClass.delimited_name hsep
        (by simp) (List.append_cancel_left h)
      rw [BitVec.eq_of_toNat_eq hindex]
    | _ => cases hinitial
  | undeclaredRegister slot =>
    cases e' with
    | undeclaredRegister slot' =>
      unfold message at h
      simp only [← String.toList_inj, String.toList_append, List.append_assoc] at h
      rw [decimal_injective (String.toList_inj.mp
        (List.append_cancel_right (List.append_cancel_left h)))]
    | _ => cases hinitial
  | widthMismatch expected =>
    cases e' with
    | widthMismatch expected' =>
      unfold message at h
      simp only [← String.toList_inj, String.toList_append, List.append_assoc] at h
      rw [Width.name_injective (String.toList_inj.mp
        (List.append_cancel_right (List.append_cancel_left h)))]
    | _ => cases hinitial

end DecodeError

namespace Halt

/-- The wording of a fault is not that of a rejection. -/
theorem message_fault_ne (field : Field) (e : DecodeError) :
    (fault field).message ≠ (rejected e).message := by
  intro h
  have hhead : (fault field).message.toList.head? = some 'f' := by
    unfold message
    simp only [String.toList_append, List.append_assoc, List.head?_append]
    simp
  rw [h] at hhead
  have hinitial : e.initial = 'f' := Option.some.inj (e.head?_toList_message.symm.trans hhead)
  cases e <;> cases hinitial

/-- No two reasons why an attempt stopped are worded alike. -/
theorem message_injective : Function.Injective message := by
  intro halt halt' h
  cases halt with
  | rejected e =>
    cases halt' with
    | rejected e' => exact congrArg rejected (DecodeError.message_injective h)
    | fault field => exact absurd h.symm (message_fault_ne field e)
  | fault field =>
    cases halt' with
    | rejected e => exact absurd h (message_fault_ne field e)
    | fault field' =>
      unfold message at h
      simp only [← String.toList_inj, String.toList_append, List.append_assoc] at h
      have hsep : EndsWord " bits at ".toList := endsWord_of_head? (c := ' ') (by simp) (by decide)
      simp only [← List.append_assoc] at h
      have hnumbers := List.append_cancel_right h
      simp only [List.append_assoc] at hnumbers
      obtain ⟨hwidth, hoffset⟩ := delimited_decimal.pair_inj delimited_decimal hsep (by simp)
        (List.append_cancel_left hnumbers)
      obtain ⟨offset, width⟩ := field
      obtain ⟨offset', width'⟩ := field'
      exact congrArg fault (congrArg₂ Field.mk hoffset hwidth)

end Halt

/-! ### Line ends -/

theorem Text.IsWord.newline_not_mem {cs : List Char} (h : IsWord cs) : '\n' ∉ cs :=
  h.not_mem (by decide)

theorem Operand.newline_not_mem_text (o : Operand) : '\n' ∉ o.text.toList := by
  cases o with
  | register cls r =>
    rw [toList_text_register]
    simp [cls.isWord_name.newline_not_mem, (isWord_decimal r.id.toNat).newline_not_mem]
  | immediate value bits =>
    rw [toList_text_immediate]
    simp [(isWord_hex value.toNat).newline_not_mem, (isWord_decimal bits.toNat).newline_not_mem]

theorem DecodeError.newline_not_mem_message (e : DecodeError) : '\n' ∉ e.message.toList := by
  unfold message
  cases e with
  | insufficientData needed available =>
    simp [(isWord_decimal needed).newline_not_mem, (isWord_decimal available).newline_not_mem]
  | noTableMatch bits width =>
    simp [width.isWord_name.newline_not_mem, (isWord_paddedHex 8 bits.toNat).newline_not_mem]
  | invalidRegisterIndex cls index =>
    simp [cls.isWord_name.newline_not_mem, (isWord_decimal index.toNat).newline_not_mem]
  | undeclaredRegister slot => simp [(isWord_decimal slot).newline_not_mem]
  | widthMismatch expected => simp [expected.isWord_name.newline_not_mem]

theorem Halt.newline_not_mem_message (halt : Halt) : '\n' ∉ halt.message.toList := by
  cases halt with
  | rejected e => exact e.newline_not_mem_message
  | fault field =>
    unfold message
    simp [(isWord_decimal field.width).newline_not_mem,
      (isWord_decimal field.offset).newline_not_mem]

end TriCore
