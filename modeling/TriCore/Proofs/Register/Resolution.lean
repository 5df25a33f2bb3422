import TriCore.Proofs.Register.Position
import TriCore.Proofs.Replacements

/-!
# Resolution of registers

The bank of a class is the one that was given last for it, so what a number names in one class does
not depend on the banks of the others. A slot that is declared as a register is resolved in its
class. Any other slot fails as one that is not declared, whatever the number.

## Main definitions

* `RegisterFile.setBanks` : a register file in which several banks are replaced.

## Main results

* `RegisterFile.bank_setBanks`, `RegisterFile.resolve_congr` : the bank that is in force counts.
* `RegisterFile.resolve_setBanks` : resolution in any register file.
-/

namespace TriCore.RegisterFile

variable {file : RegisterFile} {cls : RegisterClass}

/-! ### Slots -/

theorem resolveSlot_register (file : RegisterFile) (cls : RegisterClass) (slot : Nat)
    (number : BitVec 32) :
    file.resolveSlot (some (.register cls)) slot number =
      (file.resolve cls number).map (cls, ·) := rfl

/-- A slot that is not declared as a register fails as such, whatever the number. -/
theorem resolveSlot_of_forall_ne {kind : Option OperandKind}
    (h : ∀ cls, kind ≠ some (.register cls)) (file : RegisterFile) (slot : Nat)
    (number : BitVec 32) :
    file.resolveSlot kind slot number = .error (.undeclaredRegister slot) := by
  rcases kind with - | ⟨cls⟩ | -
  · rfl
  · exact absurd rfl (h cls)
  · rfl

/-! ### Replaced banks -/

/-- The register file with the banks of some classes replaced in order. -/
def setBanks (file : RegisterFile) (replacements : List (RegisterClass × List Register)) :
    RegisterFile :=
  replacements.foldl (fun f replacement => f.setBank replacement.1 replacement.2) file

theorem bank_setBank_eq_update (file : RegisterFile) (cls : RegisterClass)
    (registers : List Register) :
    (file.setBank cls registers).bank = Function.update file.bank cls registers := by
  ext1 c
  rw [bank_setBank, Function.update_apply]

theorem bank_setBanks (file : RegisterFile)
    (replacements : List (RegisterClass × List Register)) :
    (file.setBanks replacements).bank = replaced file.bank replacements :=
  foldl_eq_replaced bank_setBank_eq_update file replacements

/-- What a number names in a class depends on the bank of this class alone. -/
theorem resolve_congr {other : RegisterFile} (h : file.bank cls = other.bank cls)
    (number : BitVec 32) : file.resolve cls number = other.resolve cls number := by
  simp only [resolve, h]

/-- **Resolution of registers.** Let banks of the architecture's file be replaced any number of
times. Each class has one bank in force, the last one given for it. A number names the register of
this bank at its position, if there are more than that many registers and the position is not above
fifteen, and otherwise the failure reports the class and the number. The banks of other classes do
not count. A slot that is declared as a register is resolved in its class, and any other slot fails
as one that is not. Where no bank is replaced, two numbers name the same register exactly if their
classes and positions are the same. -/
theorem resolve_setBanks (replacements : List (RegisterClass × List Register))
    (cls : RegisterClass) (number : BitVec 32) :
    let file := standard.setBanks replacements
    (∃ bank, (∀ b, InForce standard.bank replacements cls b ↔ b = bank) ∧
      (∀ h : cls.position number < bank.length, cls.position number ≤ 15 →
        file.resolve cls number = .ok bank[cls.position number]) ∧
      (¬ (cls.position number ≤ 15 ∧ cls.position number < bank.length) →
        file.resolve cls number = .error (.invalidRegisterIndex cls number))) ∧
    (standard.setBanks (replacements.filter fun r => r.1 = cls)).resolve cls number =
      file.resolve cls number ∧
    (∀ slot, file.resolveSlot (some (.register cls)) slot number =
      (file.resolve cls number).map (cls, ·)) ∧
    (∀ slot kind, (∀ c, kind ≠ some (.register c)) →
      file.resolveSlot kind slot number = .error (.undeclaredRegister slot)) ∧
    ∀ (cls' : RegisterClass) (number' : BitVec 32) (r r' : Register),
      standard.resolve cls number = .ok r → standard.resolve cls' number' = .ok r' →
      (r = r' ↔ cls = cls' ∧ cls.position number = cls'.position number') := by
  intro file
  have hbank : file.bank cls = replaced standard.bank replacements cls :=
    congrFun (bank_setBanks standard replacements) cls
  refine ⟨⟨file.bank cls, fun b => ?_, fun hlength hle => ?_, resolve_eq_error⟩, ?_,
    fun slot => resolveSlot_register file cls slot number,
    fun slot kind hkind => resolveSlot_of_forall_ne hkind file slot number,
    fun cls' number' r r' => eq_iff_of_resolve_standard⟩
  · rw [inForce_iff, hbank, eq_comm]
  · exact resolve_eq_ok_iff.mpr ⟨hle, List.getElem?_eq_getElem hlength⟩
  · refine resolve_congr ?_ number
    rw [hbank, bank_setBanks, replaced_filter]

/-- The extended registers are replaced twice, and the data registers by seventeen. -/
def replacedTwice : List (RegisterClass × List Register) :=
  [(.extended, [⟨100⟩]), (.data, ⟨7⟩ :: consecutive 200), (.extended, [⟨5⟩, ⟨6⟩])]

/-- The last bank for a class counts. Its second register has the numbers `2` and `3`, and there is
no third one for the number `4`. The seventeenth data register has no number. -/
theorem resolve_setBanks_replacedTwice :
    (standard.setBanks replacedTwice).resolve .extended 3 = .ok ⟨6⟩ ∧
      (standard.setBanks replacedTwice).resolve .extended 4 =
        .error (.invalidRegisterIndex .extended 4) ∧
      (standard.setBanks replacedTwice).resolve .data 16 =
        .error (.invalidRegisterIndex .data 16) ∧
      (standard.setBanks replacedTwice).resolveSlot (some .immediate) 1 16 =
        .error (.undeclaredRegister 1) ∧
      standard.resolve .extended 6 = .ok ⟨36⟩ ∧ standard.resolve .extended 7 = .ok ⟨36⟩ ∧
        RegisterClass.extended.position 6 = RegisterClass.extended.position 7 := by
  obtain ⟨bank, hbank, hnamed, -⟩ := (resolve_setBanks replacedTwice .extended 3).1
  obtain ⟨bank', hbank', -, hmissing⟩ := (resolve_setBanks replacedTwice .extended 4).1
  obtain ⟨⟨long, -, -, hbeyond⟩, -, -, hslot, -⟩ := resolve_setBanks replacedTwice .data 16
  have hforce : InForce standard.bank replacedTwice .extended [⟨5⟩, ⟨6⟩] :=
    .inl ⟨[(.extended, [⟨100⟩]), (.data, ⟨7⟩ :: consecutive 200)], [], rfl, by simp⟩
  obtain rfl := (hbank _).mp hforce
  obtain rfl := (hbank' _).mp hforce
  have h : standard.resolve .extended 6 = .ok ⟨36⟩ := rfl
  have h' : standard.resolve .extended 7 = .ok ⟨36⟩ := rfl
  have hsame := (resolve_setBanks [] .extended 6).2.2.2.2 .extended 7 ⟨36⟩ ⟨36⟩ h h'
  refine ⟨hnamed (by decide) (by decide), hmissing (by decide), hbeyond ?_, ?_, h, h',
    (hsame.mp rfl).2⟩
  · exact fun hbelow => absurd hbelow.1 (by decide)
  · exact hslot 1 (some .immediate) fun c hc => nomatch hc

end TriCore.RegisterFile
