import TriCore.Proofs.Decoder.Standard

/-!
# Instructions conform to their descriptors

The descriptor of an opcode, the format that the chart gives it and the order of the operands in
that format are written in three places. They agree: with any registers, an instruction has as many
operands as its descriptor declares slots, and each operand is of the declared kind. Where the
destination is read as well, and in the format `sr`, the first two operands are one register.

That the places agree is a property of the sites of each pattern. What is read from a site is of the
kind of the site whatever registers there are.

## Main definitions

* `Operand.kind`, `Format.Site.kind` : what an operand or a site is, in the terms of a descriptor.

## Main results

* `Chart.map_kind_sites` : the sites of a pattern are of the kinds that its opcode declares.
* `Chart.sites_repeated` : the patterns whose first register fills two slots.
* `Decoder.decodeWord_conforms` : an instruction has the operands that its descriptor declares.
-/

namespace TriCore

open Decision Format

/-! ### Kinds of operands -/

namespace Operand

/-- What an operand is, in the terms of a descriptor. -/
def kind : Operand → OperandKind
  | register cls _ => .register cls
  | immediate .. => .immediate

variable {operands : List Operand} {slot : Nat}

/-- An operand of the kind of a register is one of that class. -/
theorem exists_register_of_kind {cls : RegisterClass}
    (h : (operands.map kind)[slot]? = some (.register cls)) :
    ∃ r, operands[slot]? = some (.register cls r) := by
  rw [List.getElem?_map] at h
  obtain ⟨operand, hoperand, hkind⟩ := Option.map_eq_some_iff.mp h
  cases operand with
  | register cls' r =>
    cases hkind
    exact ⟨r, hoperand⟩
  | immediate value bits => cases hkind

theorem exists_immediate_of_kind (h : (operands.map kind)[slot]? = some .immediate) :
    ∃ value bits, operands[slot]? = some (.immediate value bits) := by
  rw [List.getElem?_map] at h
  obtain ⟨operand, hoperand, hkind⟩ := Option.map_eq_some_iff.mp h
  cases operand with
  | register cls r => cases hkind
  | immediate value bits => exact ⟨value, bits, hoperand⟩

end Operand

namespace Format.Site

/-- What lies in a site, in the terms of a descriptor. -/
def kind : Site → OperandKind
  | register cls _ => .register cls
  | immediate _ => .immediate

variable {file : RegisterFile} {bits : BitVec 32}

/-- Whatever is read from a site is of the kind of the site. -/
theorem kind_of_read_eq_ok {site : Site} {operand : Operand}
    (h : site.read file bits = .ok operand) : operand.kind = site.kind := by
  cases site with
  | register cls offset =>
    rw [read] at h
    cases hresolve : file.resolve cls ((Source.registerField offset).extract bits) with
    | error error => simp only [hresolve, Except.map, reduceCtorEq] at h
    | ok r =>
      simp only [hresolve, Except.map, Except.ok.injEq] at h
      rw [← h]
      rfl
  | immediate pieces =>
    cases h
    rfl

variable {sites : List Site} {operands : List Operand}

/-- Operands are of the kinds of the sites that they were read from. -/
theorem map_kind_of_mapM_read (h : sites.mapM (read file bits) = .ok operands) :
    sites.map kind = operands.map Operand.kind := by
  rw [← List.forall₂_eq_eq_eq, List.forall₂_map_left_iff, List.forall₂_map_right_iff]
  exact (mapM_eq_ok_iff_forall₂.mp h).imp fun _ _ hread => (kind_of_read_eq_ok hread).symm

/-- Slots with the same site have the same operand. -/
theorem getElem?_eq_of_mapM_read (h : sites.mapM (read file bits) = .ok operands)
    {slot slot' : Nat} (hsites : sites[slot]? = sites[slot']?) :
    operands[slot]? = operands[slot']? := by
  have hread : (sites.map (read file bits))[slot]? = (sites.map (read file bits))[slot']? := by
    rw [List.getElem?_map, List.getElem?_map, hsites]
  rw [mapM_eq_ok_iff.mp h, List.getElem?_map, List.getElem?_map] at hread
  exact Option.map_injective (fun _ _ => Except.ok.inj) hread

end Format.Site

/-! ### The patterns -/

namespace Chart

variable {width : Width} {p : Pattern}

/-- The sites of a pattern are of the kinds that its opcode declares, slot by slot. -/
theorem map_kind_sites (hp : p ∈ patterns width) :
    p.candidate.sites.map Site.kind = p.candidate.opcode.descriptor.operands := by
  revert p
  cases width <;> decide +kernel

/-- Where the destination is read as well, and in the format `sr`, the first two sites are one
register. -/
theorem sites_repeated (hp : p ∈ patterns width)
    (h : p.candidate.opcode.descriptor.isTied ∨ p.candidate.format = .sr) :
    p.candidate.sites[0]? = p.candidate.sites[1]? ∧
      ∃ cls ∈ RegisterClass.all, p.candidate.sites[0]?.map Site.kind = some (.register cls) := by
  revert p
  cases width <;> decide +kernel

end Chart

/-! ### Instructions -/

namespace Decoder

/-- **Instructions conform to their descriptors.** With any registers and any features, an
instruction that is decoded has an operand for each slot that its descriptor declares, and no other:
a register of the declared class or an immediate. If the descriptor is tied, or the opcode has the
format `sr`, the first two operands are the same register. -/
theorem decodeWord_conforms {file : RegisterFile} {features : Features} {d : Decoder}
    (hd : ofParts file .standard .short .long features = .ok d) {w : Word} {address : UInt64}
    {i : Instruction} (h : d.decodeWord w address = .ok i) :
    let descriptor := DescriptorTable.standard.get i.opcode
    i.operands.length = descriptor.operands.length ∧
    (∀ slot cls, descriptor.operand? slot = some (.register cls) →
      ∃ r, i.operands[slot]? = some (.register cls r)) ∧
    (∀ slot, descriptor.operand? slot = some .immediate →
      ∃ value bits, i.operands[slot]? = some (.immediate value bits)) ∧
    (descriptor.isTied ∨ (Table.ofWidth w.width).Binds ⟨i.opcode, .sr⟩ →
      ∃ cls r, i.operands[0]? = some (.register cls r) ∧
        i.operands[1]? = some (.register cls r)) := by
  rw [eq_withRegisters_of_ofParts hd] at h
  obtain ⟨p, hp, -, hread, hi⟩ := exists_sites_of_decodeWord_eq_ok h
  have hopcode : i.opcode = p.candidate.opcode := congrArg Instruction.opcode hi
  have hkinds : i.operands.map Operand.kind = p.candidate.opcode.descriptor.operands :=
    (Site.map_kind_of_mapM_read hread).symm.trans (Chart.map_kind_sites hp)
  simp only [DescriptorTable.get_standard, hopcode, Descriptor.operand?, ← hkinds]
  refine ⟨(List.length_map _).symm, fun slot cls => Operand.exists_register_of_kind,
    fun slot => Operand.exists_immediate_of_kind, fun hrepeated => ?_⟩
  have hformat : p.candidate.opcode.descriptor.isTied ∨ p.candidate.format = .sr := by
    refine hrepeated.imp_right fun hbinds => ?_
    obtain ⟨q, hq, hcandidate⟩ := Chart.binds_ofWidth_iff.mp hbinds
    have hsame : q = p := Chart.eq_of_opcode_eq hq hp (by rw [hcandidate])
    rw [← hsame, hcandidate]
  obtain ⟨hsites, cls, -, hkind⟩ := Chart.sites_repeated hp hformat
  have hregister : (i.operands.map Operand.kind)[0]? = some (.register cls) := by
    rwa [← Site.map_kind_of_mapM_read hread, List.getElem?_map]
  obtain ⟨r, hr⟩ := Operand.exists_register_of_kind hregister
  exact ⟨cls, r, hr, Site.getElem?_eq_of_mapM_read hread hsites ▸ hr⟩

/-- The architecture's registers with only four data registers, of which two are the same. -/
def fourData : RegisterFile := RegisterFile.standard.setBank .data [⟨7⟩, ⟨8⟩, ⟨9⟩, ⟨7⟩]

/-- A tied instruction for these registers. Its first two operands are the destination. -/
theorem decodeWord_conforms_andEqRr :
    ∃ d i, ofParts fourData .standard .short .long .empty = .ok d ∧
      d.decodeWord (.long 0x320D210B) 4 = .ok i ∧
      (DescriptorTable.standard.get i.opcode).isTied ∧
      i.operands = [.register .data ⟨7⟩, .register .data ⟨7⟩, .register .data ⟨8⟩,
        .register .data ⟨9⟩, .immediate 1 2] ∧
      ∃ cls r, i.operands[0]? = some (.register cls r) ∧
        i.operands[1]? = some (.register cls r) := by
  have hd := ofParts_withRegisters fourData .empty
  have hword : (withRegisters fourData .empty).decodeWord (.long 0x320D210B) 4 =
      .ok ⟨.andEqRr, [.register .data ⟨7⟩, .register .data ⟨7⟩, .register .data ⟨8⟩,
        .register .data ⟨9⟩, .immediate 1 2], .long, 4⟩ := by decide +kernel
  have htied : (DescriptorTable.standard.get .andEqRr).isTied := by
    rw [DescriptorTable.get_standard]
    rfl
  exact ⟨_, _, hd, hword, htied, rfl, (decodeWord_conforms hd hword).2.2.2 (.inl htied)⟩

end Decoder

end TriCore
