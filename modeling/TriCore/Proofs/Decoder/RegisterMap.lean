import TriCore.Proofs.Encoding.RoundTrip

/-!
# Decoding is the same for all registers

The registers of a decoder only name what has been decoded. A word that is not recognised is not
recognised with any registers. A word that is decoded with the architecture's registers is decoded
with others to the same instruction, in which each register is replaced by the one that stands at
its position in the bank of its class. If a bank is too short for a position, decoding fails for the
first operand that this concerns, and reports the number as it stands in the word.

## Main definitions

* `RegisterFile.position?` : the position of a register of the architecture in its class.
* `RegisterFile.counterpart?` : the register of a file at that position.
* `Operand.relocate?` : an operand with its register replaced by its counterpart.
* `Decision.Table.Numbers` : where a word has the number of the register in a slot.

## Main results

* `RegisterFile.resolve_eq_counterpart` : a number names the counterpart of the register that it
  names in the architecture's file.
* `Format.Site.read_eq_ok_iff`, `Format.Site.read_eq_error` : the operand in a site, for any
  registers.
* `Decoder.decodeWord_eq_relocate` : decoding with any registers.
-/

namespace TriCore

open Decision Format

/-! ### Counterparts of registers -/

namespace RegisterFile

/-- The position of a register of the architecture in the bank of its class. -/
def position? (cls : RegisterClass) (r : Register) : Option Nat := (standard.bank cls).idxOf? r

/-- The register that a file has at the position of a register of the architecture. -/
def counterpart? (file : RegisterFile) (cls : RegisterClass) (r : Register) : Option Register :=
  (position? cls r).bind fun position => (file.bank cls)[position]?

theorem nodup_standard (cls : RegisterClass) : (standard.bank cls).Nodup := by
  cases cls <;> decide +kernel

/-- The register that a number names stands at the position that the number selects. -/
theorem position?_named (cls : RegisterClass) {number : BitVec 32} (h : number.toNat < 16) :
    position? cls (named cls number) = some (cls.position number) := by
  obtain ⟨hbank, hnamed⟩ :=
    List.getElem?_eq_some_iff.mp (getElem?_bank_standard_position cls h)
  refine List.idxOf?_eq_some_iff.mpr ⟨hbank, hnamed, fun earlier hearlier hsame => ?_⟩
  have hequal := (List.Nodup.getElem_inj_iff (nodup_standard cls)).mp (hsame.trans hnamed.symm)
  exact absurd hequal (Nat.ne_of_lt hearlier)

/-- A number of four bits names the counterpart of the register that it names in the architecture's
file, if there is one. -/
theorem resolve_eq_counterpart (file : RegisterFile) (cls : RegisterClass) {number : BitVec 32}
    (h : number.toNat < 16) :
    file.resolve cls number =
      match file.counterpart? cls (named cls number) with
      | some register => .ok register
      | none => .error (.invalidRegisterIndex cls number) := by
  have hcounterpart : file.counterpart? cls (named cls number) =
      (file.bank cls)[cls.position number]? := by
    rw [counterpart?, position?_named cls h, Option.bind_some]
  cases hbank : (file.bank cls)[cls.position number]? with
  | none => simp only [resolve_of_lt file cls h, hcounterpart, hbank]
  | some register => simp only [resolve_of_lt file cls h, hcounterpart, hbank]

end RegisterFile

/-! ### Operands -/

/-- The operand with its register replaced by its counterpart. An immediate stays as it is. -/
def Operand.relocate? (file : RegisterFile) : Operand → Option Operand
  | .register cls r => (file.counterpart? cls r).map (.register cls)
  | .immediate value bits => some (.immediate value bits)

namespace Format.Site

variable {file : RegisterFile} {bits : BitVec 32}

/-- What is read from a site is the operand for the architecture's registers, relocated. -/
theorem read_eq_ok_iff {site : Site} {operand : Operand} :
    site.read file bits = .ok operand ↔
      (site.operand bits).relocate? file = some operand := by
  cases site with
  | register cls offset =>
    rw [read, Site.operand, Operand.relocate?,
      RegisterFile.resolve_eq_counterpart file cls (toNat_extract_registerField_lt offset bits)]
    cases file.counterpart? cls
        (RegisterFile.named cls ((Source.registerField offset).extract bits)) with
    | none => simp only [Except.map, Option.map_none, reduceCtorEq]
    | some r => simp only [Except.map, Option.map_some, Except.ok.injEq, Option.some.injEq]
  | immediate pieces =>
    simp only [read, Site.operand, Operand.ofField, Operand.relocate?, Except.ok.injEq,
      Option.some.injEq]

/-- A register that has no counterpart is reported by the number that the word has for it. -/
theorem read_eq_error {cls : RegisterClass} {offset : Nat}
    (h : file.counterpart? cls
      (RegisterFile.named cls ((Source.registerField offset).extract bits)) = none) :
    (register cls offset).read file bits =
      .error (.invalidRegisterIndex cls ((Source.registerField offset).extract bits)) := by
  rw [read, RegisterFile.resolve_eq_counterpart file cls
    (toNat_extract_registerField_lt offset bits), h]
  rfl

/-- The sites are read if all of their operands can be relocated. -/
theorem mapM_read_eq_ok {sites : List Site} {operands : List Operand}
    (h : (sites.map (operand bits)).map (Operand.relocate? file) = operands.map some) :
    sites.mapM (read file bits) = .ok operands := by
  rw [List.map_map, ← List.forall₂_eq_eq_eq, List.forall₂_map_left_iff,
    List.forall₂_map_right_iff] at h
  exact mapM_eq_ok_iff_forall₂.mpr (h.imp fun _ _ hrelocated => read_eq_ok_iff.mpr hrelocated)

/-- Reading the sites fails for the first register that has no counterpart. -/
theorem mapM_read_eq_error {sites : List Site} {slot : Nat} {cls : RegisterClass} {offset : Nat}
    (hsite : sites[slot]? = some (register cls offset))
    (hmissing : file.counterpart? cls
      (RegisterFile.named cls ((Source.registerField offset).extract bits)) = none)
    (hbefore : ∀ earlier < slot, ∀ operand,
      (sites.map (Site.operand bits))[earlier]? = some operand →
        (operand.relocate? file).isSome) :
    sites.mapM (read file bits) =
      .error (.invalidRegisterIndex cls ((Source.registerField offset).extract bits)) := by
  refine mapM_eq_error hsite (read_eq_error hmissing) fun earlier hearlier site hsite => ?_
  have hoperand : (sites.map (Site.operand bits))[earlier]? = some (site.operand bits) := by
    rw [List.getElem?_map, hsite, Option.map_some]
  obtain ⟨operand, hrelocated⟩ :=
    Option.isSome_iff_exists.mp (hbefore earlier hearlier _ hoperand)
  exact ⟨operand, read_eq_ok_iff.mpr hrelocated⟩

/-- The register in a slot is the one that the number in its site names. -/
theorem exists_offset_of_operand {sites : List Site} {slot : Nat} {cls : RegisterClass}
    {r : Register} (h : (sites.map (Site.operand bits))[slot]? = some (.register cls r)) :
    ∃ offset, sites[slot]? = some (register cls offset) ∧
      r = RegisterFile.named cls ((Source.registerField offset).extract bits) := by
  rw [List.getElem?_map] at h
  obtain ⟨site, hsite, hoperand⟩ := Option.map_eq_some_iff.mp h
  cases site with
  | immediate pieces => cases hoperand
  | register cls' offset =>
    cases hoperand
    exact ⟨offset, hsite, rfl⟩

end Format.Site

/-! ### Where a word has a number -/

/-- The register in a slot is numbered in four bits of the word, where the diagram of the format has
the value of this slot. -/
theorem Chart.exists_role_of_site {width : Width} {p : Pattern} (hp : p ∈ patterns width)
    {slot : Nat} {cls : RegisterClass} {offset : Nat}
    (h : p.candidate.sites[slot]? = some (.register cls offset)) :
    ∃ role, p.candidate.roles[slot]? = some role ∧
      p.candidate.pieces role = Fragment.whole offset 4 := by
  obtain ⟨hlength, hholds⟩ := List.forall₂_iff_get.mp (holds_sites hp)
  obtain ⟨hslot, hsite⟩ := List.getElem?_eq_some_iff.mp h
  have hslot' : slot < p.candidate.slots.length := hlength ▸ hslot
  have hagrees := hholds slot hslot hslot'
  rw [List.get_eq_getElem, hsite] at hagrees
  have hrole : p.candidate.roles[slot]? = some (p.candidate.slots[slot]).2 :=
    (List.getElem?_zip_eq_some.mp (List.getElem?_eq_getElem hslot')).2
  exact ⟨_, hrole, hagrees.2⟩

/-- The word has the number of the register in a slot of the opcode at `offset`: there the diagram
of the format to which the table binds the opcode has the value of this slot. -/
def Decision.Table.Numbers (t : Table) (o : Opcode) (slot offset : Nat) : Prop :=
  ∃ candidate role, t.Binds candidate ∧ candidate.opcode = o ∧
    candidate.roles[slot]? = some role ∧ candidate.pieces role = Fragment.whole offset 4

/-! ### Decoding -/

namespace Decoder

/-- **Decoding is the same for all registers.** Let a decoder have the architecture's tables and
descriptors and any registers. A word that the architecture's decoder does not recognise is refused
in the same way. Of a word that it decodes, every register has a position in the bank of its class,
which its number in the word selects. If the banks of the decoder have all of these positions, it
decodes the word to the same instruction with the registers that stand there. Otherwise it fails for
the first register in the order of the operands whose position its bank does not have, and reports
the class and the number. -/
theorem decodeWord_eq_relocate {file : RegisterFile} {features : Features} {d : Decoder}
    (hd : ofParts file .standard .short .long features = .ok d) (w : Word) (address : UInt64) :
    (∀ halt, (standard features).decodeWord w address = .error halt →
      halt = .rejected (.noTableMatch w.bits w.width) ∧ d.decodeWord w address = .error halt) ∧
    ∀ i, (standard features).decodeWord w address = .ok i →
      (∀ operands, i.operands.map (Operand.relocate? file) = operands.map some →
        d.decodeWord w address = .ok { i with operands }) ∧
      ∀ (slot : Nat) (cls : RegisterClass) (r : Register),
        i.operands[slot]? = some (.register cls r) →
        ∃ offset, (Table.ofWidth w.width).Numbers i.opcode slot offset ∧
          let number := (Field.mk offset 4).extract w.bits
          RegisterFile.position? cls r = some (cls.position number) ∧
          (file.counterpart? cls r = none →
            (∀ earlier < slot, ∀ operand : Operand, i.operands[earlier]? = some operand →
              (operand.relocate? file).isSome) →
            d.decodeWord w address =
              .error (.rejected (.invalidRegisterIndex cls number))) := by
  obtain rfl := eq_withRegisters_of_ofParts hd
  refine ⟨fun halt h => ?_, fun i h => ?_⟩
  · rw [decodeWord_standard] at h
    rw [decodeWord_withRegisters]
    cases hfind : (Chart.patterns w.width).find? (·.Recognises w features) with
    | none =>
      rw [hfind] at h
      cases h
      exact ⟨rfl, rfl⟩
    | some p => simp only [hfind, reduceCtorEq] at h
  · obtain ⟨p, hp, hrecognises, rfl⟩ := exists_pattern_of_decodeWord_eq_ok h
    rw [decodeWord_withRegisters_of_recognises hp rfl hrecognises]
    refine ⟨fun operands hrelocated => ?_, fun slot cls r hslot => ?_⟩
    · rw [Site.mapM_read_eq_ok hrelocated]
      rfl
    · obtain ⟨offset, hsite, rfl⟩ := Site.exists_offset_of_operand hslot
      obtain ⟨role, hrole, hpieces⟩ := Chart.exists_role_of_site hp hsite
      have hbinds := Chart.binds_ofWidth_iff.mpr ⟨p, hp, rfl⟩
      have hposition := RegisterFile.position?_named cls
        (Site.toNat_extract_registerField_lt offset w.bits)
      refine ⟨offset, ⟨p.candidate, role, hbinds, rfl, hrole, hpieces⟩, hposition,
        fun hmissing hbefore => ?_⟩
      rw [Site.mapM_read_eq_error hsite hmissing hbefore]
      rfl

/-- The architecture's registers with only one extended register. -/
def oneExtended : RegisterFile := RegisterFile.standard.setBank .extended [⟨5⟩]

/-- The numbers `0` and `1` name the one extended register. The number `3`, which selects the second
position, is reported as it stands in the word. -/
theorem decodeWord_ldDAbs_oneExtended :
    ∃ d, ofParts oneExtended .standard .short .long .empty = .ok d ∧
      (standard .empty).decodeWord (.long 0x04000185) 0 =
        .ok ⟨.ldDAbs, [.register .extended ⟨33⟩, .immediate 0 18], .long, 0⟩ ∧
      d.decodeWord (.long 0x04000185) 0 =
        .ok ⟨.ldDAbs, [.register .extended ⟨5⟩, .immediate 0 18], .long, 0⟩ ∧
      (standard .empty).decodeWord (.long 0x04000385) 0 =
        .ok ⟨.ldDAbs, [.register .extended ⟨34⟩, .immediate 0 18], .long, 0⟩ ∧
      ∃ offset, Table.long.Numbers .ldDAbs 0 offset ∧
        (Field.mk offset 4).extract 0x04000385 = 3 ∧
        d.decodeWord (.long 0x04000385) 0 =
          .error (.rejected (.invalidRegisterIndex .extended 3)) := by
  have hd := ofParts_withRegisters oneExtended .empty
  have hfirst : (standard .empty).decodeWord (.long 0x04000185) 0 =
      .ok ⟨.ldDAbs, [.register .extended ⟨33⟩, .immediate 0 18], .long, 0⟩ := by decide +kernel
  have hsecond : (standard .empty).decodeWord (.long 0x04000385) 0 =
      .ok ⟨.ldDAbs, [.register .extended ⟨34⟩, .immediate 0 18], .long, 0⟩ := by decide +kernel
  have hrelocated := ((decodeWord_eq_relocate hd (.long 0x04000185) 0).2 _ hfirst).1
    [.register .extended ⟨5⟩, .immediate 0 18] (by decide +kernel)
  obtain ⟨offset, hnumbers, -, hfails⟩ :=
    ((decodeWord_eq_relocate hd (.long 0x04000385) 0).2 _ hsecond).2 0 .extended ⟨34⟩ rfl
  have herror := hfails (by decide +kernel) fun earlier hearlier =>
    absurd hearlier earlier.not_lt_zero
  have hreported : (withRegisters oneExtended .empty).decodeWord (.long 0x04000385) 0 =
      .error (.rejected (.invalidRegisterIndex .extended 3)) := by decide +kernel
  have hnumber : (Field.mk offset 4).extract 0x04000385 = 3 := by
    simpa using herror.symm.trans hreported
  exact ⟨_, hd, hfirst, hrelocated, hsecond, offset, hnumbers, hnumber, hreported⟩

end Decoder

end TriCore
