import TriCore.RegisterFile

/-!
# Positions of registers

A number names the register at a position of the bank of its class. For a class of pairs the
position is half the number, so both halves of a pair name it. There are at most sixteen positions,
however long the bank is, and the bank may have fewer. Where there is no register the failure
reports the number as it was given, not the position.

In the architecture's own file identifiers count up through all classes: the identifier of a
register tells its class and its position. All sixteen registers of a class are there, so a number
of four bits always names one.

## Main definitions

* `RegisterClass.position` : the position that a number selects.
* `RegisterClass.firstId` : the identifier of the first register of a class.
* `RegisterFile.named` : the register of the architecture that a number of four bits names.

## Main results

* `RegisterFile.resolve_eq_ok_iff`, `RegisterFile.resolve_eq_error` : which numbers name a register.
* `RegisterFile.getElem?_bank_standard_iff` : identifiers in the architecture's file.
* `RegisterFile.eq_iff_of_resolve_standard` : what a register of the architecture tells.
* `RegisterFile.resolve_standard` : numbers of four bits in the architecture's file.
-/

namespace TriCore

/-! ### Positions -/

namespace RegisterClass

/-- The position that a number selects: the number itself, or half of it, rounded down, where each
register stands for a pair. -/
def position (cls : RegisterClass) (number : BitVec 32) : Nat :=
  match cls with
  | data | address => number.toNat
  | extended | addressPair => number.toNat / 2

theorem toNat_apply_transform (cls : RegisterClass) (number : BitVec 32) :
    (cls.transform.apply number).toNat = cls.position number := by
  cases cls with
  | data | address => rfl
  | extended | addressPair => exact IndexTransform.toNat_apply_halve number

theorem position_le (cls : RegisterClass) (number : BitVec 32) :
    cls.position number ≤ number.toNat := by
  cases cls with
  | data | address => exact Nat.le_refl _
  | extended | addressPair => exact Nat.div_le_self _ 2

theorem position_eq_position_iff (cls : RegisterClass) {a b : BitVec 32} :
    cls.position a = cls.position b ↔ cls.transform.apply a = cls.transform.apply b := by
  rw [← toNat_apply_transform, ← toNat_apply_transform, BitVec.toNat_inj]

/-- The identifier of the first register of a class in the architecture's file. -/
def firstId : RegisterClass → Nat
  | address => 1
  | data => 17
  | extended => 33
  | addressPair => 49

theorem firstId_le (cls : RegisterClass) : cls.firstId ≤ 49 := by cases cls <;> decide

/-- The first identifiers of two classes are sixteen apart or more. -/
theorem eq_of_firstId_lt {cls cls' : RegisterClass} (h : cls.firstId < cls'.firstId + 16)
    (h' : cls'.firstId < cls.firstId + 16) : cls = cls' := by
  revert h h'
  cases cls <;> cases cls' <;> decide

end RegisterClass

namespace RegisterFile

variable {file : RegisterFile} {cls cls' : RegisterClass} {number number' : BitVec 32}
  {r r' : Register} {i : Nat}

/-! ### One register file -/

/-- A number names the register at its position, if this is one of sixteen and the bank has it. -/
theorem resolve_eq_ok_iff :
    file.resolve cls number = .ok r ↔
      cls.position number ≤ 15 ∧ (file.bank cls)[cls.position number]? = some r := by
  simp only [resolve, RegisterClass.toNat_apply_transform, lastPosition]
  by_cases hle : cls.position number ≤ 15
  · rw [if_neg (Nat.not_lt.mpr hle)]
    cases (file.bank cls)[cls.position number]? <;> simp [hle]
  · rw [if_pos (Nat.lt_of_not_le hle)]
    simp [hle]

/-- Where there is no register, the failure reports the number as it was given. -/
theorem resolve_eq_error
    (h : ¬ (cls.position number ≤ 15 ∧ cls.position number < (file.bank cls).length)) :
    file.resolve cls number = .error (.invalidRegisterIndex cls number) := by
  simp only [resolve, RegisterClass.toNat_apply_transform, lastPosition]
  by_cases hle : cls.position number ≤ 15
  · have hbank : (file.bank cls).length ≤ cls.position number :=
      Nat.le_of_not_lt fun hlt => h ⟨hle, hlt⟩
    rw [if_neg (Nat.not_lt.mpr hle), List.getElem?_eq_none hbank]
  · rw [if_pos (Nat.lt_of_not_le hle)]

/-- A number of four bits is resolved by its position in the bank of its class. -/
theorem resolve_of_lt (file : RegisterFile) (cls : RegisterClass) (h : number.toNat < 16) :
    file.resolve cls number =
      match (file.bank cls)[cls.position number]? with
      | some register => .ok register
      | none => .error (.invalidRegisterIndex cls number) := by
  have hposition := Nat.lt_of_le_of_lt (cls.position_le number) h
  rw [← RegisterClass.toNat_apply_transform] at hposition ⊢
  exact if_neg (Nat.not_lt.mpr (Nat.le_of_lt_succ hposition))

/-! ### The architecture's file -/

theorem bank_standard (cls : RegisterClass) : standard.bank cls = consecutive cls.firstId := by
  cases cls <;> rfl

/-- The identifiers of a class count up from its first one. -/
theorem getElem?_bank_standard_iff :
    (standard.bank cls)[i]? = some r ↔ i < 16 ∧ r.id.toNat = cls.firstId + i := by
  have hfirst := cls.firstId_le
  rw [bank_standard, consecutive, List.getElem?_map, Option.map_eq_some_iff]
  constructor
  · rintro ⟨j, hj, rfl⟩
    obtain ⟨hlt, rfl⟩ := List.getElem?_eq_some_iff.mp hj
    rw [List.length_range] at hlt
    refine ⟨hlt, ?_⟩
    rw [List.getElem_range, UInt16.toNat_ofNat']
    omega
  · rintro ⟨hlt, hid⟩
    refine ⟨i, List.getElem?_range hlt, ?_⟩
    obtain ⟨id⟩ := r
    rw [← hid, UInt16.ofNat_toNat]

/-- In the architecture's file a register tells its class and its position. -/
theorem eq_iff_of_resolve_standard (h : standard.resolve cls number = .ok r)
    (h' : standard.resolve cls' number' = .ok r') :
    r = r' ↔ cls = cls' ∧ cls.position number = cls'.position number' := by
  obtain ⟨-, hr⟩ := resolve_eq_ok_iff.mp h
  obtain ⟨-, hr'⟩ := resolve_eq_ok_iff.mp h'
  constructor
  · rintro rfl
    obtain ⟨hlt, hid⟩ := getElem?_bank_standard_iff.mp hr
    obtain ⟨hlt', hid'⟩ := getElem?_bank_standard_iff.mp hr'
    obtain rfl : cls = cls' := RegisterClass.eq_of_firstId_lt (by omega) (by omega)
    exact ⟨rfl, by omega⟩
  · rintro ⟨rfl, hposition⟩
    rw [hposition, hr'] at hr
    exact (Option.some.inj hr).symm

/-- The register of the architecture that a number of four bits names in a class. -/
def named (cls : RegisterClass) (number : BitVec 32) : Register :=
  ⟨UInt16.ofNat (cls.firstId + cls.position number)⟩

theorem getElem?_bank_standard_position (cls : RegisterClass) (h : number.toNat < 16) :
    (standard.bank cls)[cls.position number]? = some (named cls number) := by
  have hfirst := cls.firstId_le
  have hposition := Nat.lt_of_le_of_lt (cls.position_le number) h
  refine getElem?_bank_standard_iff.mpr ⟨hposition, ?_⟩
  rw [named, UInt16.toNat_ofNat']
  omega

theorem resolve_standard (cls : RegisterClass) (h : number.toNat < 16) :
    standard.resolve cls number = .ok (named cls number) := by
  rw [resolve_of_lt standard cls h, getElem?_bank_standard_position cls h]

/-- Two numbers name the same register exactly if they select the same position. -/
theorem named_eq_named_iff (cls : RegisterClass) (h : number.toNat < 16)
    (h' : number'.toNat < 16) :
    named cls number = named cls number' ↔ cls.position number = cls.position number' := by
  rw [eq_iff_of_resolve_standard (resolve_standard cls h) (resolve_standard cls h'),
    and_iff_right rfl]

end RegisterFile

end TriCore
