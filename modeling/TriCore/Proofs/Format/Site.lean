import TriCore.Proofs.Attempts
import TriCore.Proofs.Format.Range
import TriCore.Proofs.Register.Position

/-!
# Sites of operands

What a descriptor decides about the operands of a format can be decided before any word is seen:
which class each register has, and what a repeated operand repeats. What is left of a source is a
site, a register field with its class or an immediate in pieces. Collecting the operands of a
format is then reading its sites one after the other, and the only thing that can fail is that a
register is missing from its bank. The architecture's own registers are all there, so with them the
operands are a function of the bits alone.

## Main definitions

* `Format.Site` : a place of a word with the kind of operand that lies there.
* `Format.Site.read`, `Format.Site.collect` : the operands that lie in sites, for any registers.
* `Format.sites?` : the sites that sources stand for, if the descriptor declares their registers.
* `Format.Site.operand` : the operand that lies in a site, for the architecture's registers.

## Main results

* `Format.collect_eq_collect_sites` : collecting from sources is collecting from their sites.
* `Format.Site.map_collect_eq_mapM` : collecting from sites is reading all of them.
* `Format.Site.mapM_read_standard` : with the architecture's registers every site has its operand.
-/

namespace TriCore

namespace Format

/-! ### Sites -/

/-- A place of a word with the kind of operand that lies there. -/
inductive Site
  /-- A register of the class, encoded in four bits at `offset`. -/
  | register (cls : RegisterClass) (offset : Nat)
  /-- An immediate in the given pieces. -/
  | immediate (pieces : List Fragment)
deriving DecidableEq

namespace Site

/-- The operand that lies in a site. -/
def read (file : RegisterFile) (bits : BitVec 32) : Site → Except DecodeError Operand
  | register cls offset =>
    (file.resolve cls ((Source.registerField offset).extract bits)).map (.register cls)
  | immediate pieces => .ok (.ofField (Fragment.gather pieces bits) (Fragment.totalWidth pieces))

/-- The operands that lie in sites, collected in order behind those of a draft. -/
def collect (file : RegisterFile) (bits : BitVec 32) : List Site → Draft → Collected
  | [], draft => ⟨draft, .ok ()⟩
  | site :: sites, draft =>
    match site.read file bits with
    | .error error => ⟨draft, .error (.rejected error)⟩
    | .ok operand => collect file bits sites (draft.append [operand])

end Site

/-- The site that a source stands for behind the sites `before`. -/
def Source.site? (d : Descriptor) (before : List Site) : Source → Option Site
  | data offset => some (.register .data offset)
  | declared offset =>
    match d.operand? before.length with
    | some (.register cls) => some (.register cls offset)
    | _ => none
  | again => before.getLast?
  | immediate pieces => some (.immediate pieces)

/-- The sites that sources stand for behind the sites `before`. -/
def sites? (d : Descriptor) (before : List Site) : List Source → Option (List Site)
  | [] => some []
  | source :: sources =>
    (source.site? d before).bind fun site =>
      (sites? d (before ++ [site]) sources).map (site :: ·)

/-! ### Collecting from sites -/

variable {file : RegisterFile} {d : Descriptor} {bits : BitVec 32}

/-- A source yields what lies in its site, if the operands before it are what lies in the sites
before it. -/
theorem Source.attempt_eq_map_read {source : Source} {before : List Site} {site : Site}
    (h : source.site? d before = some site) {operands : List Operand}
    (hbefore : before.map (Site.read file bits) = operands.map .ok) :
    source.attempt ⟨file, d⟩ bits operands = (site.read file bits).map some := by
  have hlength : before.length = operands.length := by
    simpa only [List.length_map] using congrArg List.length hbefore
  cases source with
  | data offset =>
    cases h
    simp only [attempt, Site.read]
    cases file.resolve .data ((registerField offset).extract bits) <;> rfl
  | declared offset =>
    simp only [site?] at h
    split at h
    case h_1 cls hkind =>
      cases h
      simp only [attempt, ← hlength, hkind, RegisterFile.resolveSlot, Site.read]
      cases file.resolve cls ((registerField offset).extract bits) <;> rfl
    case h_2 => cases h
  | again =>
    have hlast := congrArg List.getLast? hbefore
    have hsite : before.getLast? = some site := h
    rw [List.getLast?_map, List.getLast?_map, hsite] at hlast
    obtain ⟨operand, hoperand, hread⟩ := Option.map_eq_some_iff.mp hlast.symm
    simp only [attempt, hoperand, ← hread]
    rfl
  | immediate pieces =>
    cases h
    rfl

/-- Collecting operands from sources in range is collecting them from the sites that the sources
stand for. -/
theorem collect_eq_collect_sites (w : Word) (sources : List Source)
    (hrange : ∀ source ∈ sources, source.InRange) {before sites : List Site}
    (hsites : sites? d before sources = some sites) {draft : Draft}
    (hbefore : before.map (Site.read file w.bits) = draft.operands.map .ok) :
    collect ⟨file, d⟩ w sources draft = Site.collect file w.bits sites draft := by
  induction sources generalizing before sites draft with
  | nil =>
    cases hsites
    rfl
  | cons source sources ih =>
    obtain ⟨site, hsite, hsites⟩ := Option.bind_eq_some_iff.mp hsites
    obtain ⟨rest, hrest, rfl⟩ := Option.map_eq_some_iff.mp hsites
    rw [collect, Site.collect, Source.operand?_eq_attempt (hrange source List.mem_cons_self),
      Source.attempt_eq_map_read hsite hbefore]
    cases hread : site.read file w.bits with
    | error error => rfl
    | ok operand =>
      refine ih (fun source hs => hrange source (List.mem_cons_of_mem _ hs)) hrest ?_
      simp only [Draft.append, List.map_append, hbefore, List.map_cons, List.map_nil, hread,
        Option.toList]

/-- Collecting from sites is reading all of them. -/
theorem Site.map_collect_eq_mapM (sites : List Site) (draft : Draft) :
    (collect file bits sites draft).result.map (fun _ => (collect file bits sites draft).draft) =
      Source.orReject ((sites.mapM (read file bits)).map draft.append) := by
  induction sites generalizing draft with
  | nil =>
    have hdraft : draft = draft.append [] := by rw [Draft.append, List.append_nil]
    exact congrArg Except.ok hdraft
  | cons site sites ih =>
    rw [collect, mapM_cons_eq_match]
    cases read file bits site with
    | error error => rfl
    | ok operand =>
      refine (ih (draft.append [operand])).trans ?_
      cases sites.mapM (read file bits) with
      | error error => rfl
      | ok operands =>
        simp only [Except.map, Draft.append, List.append_assoc, List.singleton_append]

end Format

/-! ### The architecture's registers -/

namespace Format.Site

theorem toNat_extract_registerField_lt (offset : Nat) (bits : BitVec 32) :
    ((Source.registerField offset).extract bits).toNat < 16 := by
  rw [Field.extract, BitVec.toNat_setWidth]
  exact Nat.lt_of_le_of_lt (Nat.mod_le ..) (BitVec.isLt _)

/-- The operand that lies in a site, for the architecture's registers. -/
def operand (bits : BitVec 32) : Site → Operand
  | register cls offset =>
    .register cls (RegisterFile.named cls ((Source.registerField offset).extract bits))
  | immediate pieces => .ofField (Fragment.gather pieces bits) (Fragment.totalWidth pieces)

theorem read_standard (bits : BitVec 32) (site : Site) :
    site.read .standard bits = .ok (site.operand bits) := by
  cases site with
  | register cls offset =>
    rw [read, RegisterFile.resolve_standard cls (toNat_extract_registerField_lt offset bits)]
    rfl
  | immediate pieces => rfl

/-- With the architecture's registers, every site has its operand. -/
theorem mapM_read_standard (bits : BitVec 32) (sites : List Site) :
    sites.mapM (read .standard bits) = .ok (sites.map (operand bits)) := by
  rw [mapM_eq_ok_iff, List.map_map]
  exact List.map_congr_left fun site _ => read_standard bits site

end Format.Site

end TriCore
