import TriCore.Proofs.Format.Collection

/-!
# What a descriptor decides

Eleven formats ask the descriptor for the classes of their registers, and the others do not look at
it at all. For each of the eleven the slots that are filled from a register field are listed below,
with the place of the field. The list depends on the descriptor: a tied destination moves the
sources back by one slot, and `abs` and `rlc` order their operands by what slot `0` is declared to
be, so that they ask for slot `0` when it is not declared at all. The slots are counted from the
draft's first operand, so the first slot in the list that is not declared a register is also the
number of operands that the draft has when the word is rejected.

## Main definitions

* `Format.descriptorDriven` : the formats that ask the descriptor.
* `Format.Demand`, `Format.demands` : the slots of a format that are filled from register fields.
* `Descriptor.firstUndeclared?`, `Descriptor.lookedUp` : the first demand for a slot that is not
  declared a register, and the demands before it.

## Main results

* `Format.demandsFrom_of_layout` : the demands are those of the declared sources of a layout.
* `Format.Collects.class_of_declared` : each register has the class that its slot declares.
* `Format.Collects.result_of_present` : which demand a collection is rejected for.
* `Format.decode_declares` : what the descriptor decides, for all formats.
-/

namespace TriCore.Format

open Source

/-! ### Demands -/

/-- The formats that read registers of declared classes. -/
def descriptorDriven : List Format := [src, srr, srrs, ssr, abs, bo, bol, rc, rcpw, rlc, rr]

/-- A slot that is filled from a register field, and the place of the field. -/
structure Demand where
  slot : Nat
  offset : Nat
deriving DecidableEq

/-- The bank of the class that is declared for the slot has an entry for the number in the field. -/
def Demand.Present (demand : Demand) (context : Context) (bits : BitVec 32) : Prop :=
  ∀ cls, context.descriptor.register? demand.slot = some cls →
    ∃ r, context.registers.entry? cls ((registerField demand.offset).extract bits) = some r

/-- The slots that a format fills from register fields, in order. Formats that read data registers
only have none. -/
def demands (f : Format) (d : Descriptor) : List Demand :=
  -- A tied destination fills the slots 0 and 1.
  let source := if d.isTied then 2 else 1
  match f with
  | src => [⟨0, first⟩]
  | srr | srrs | bo | bol => [⟨0, first⟩, ⟨1, second⟩]
  | ssr => [⟨0, second⟩, ⟨1, first⟩]
  | rcpw => [⟨0, destination⟩, ⟨1, first⟩]
  | rc => [⟨0, destination⟩, ⟨source, first⟩]
  | rr => [⟨0, destination⟩, ⟨source, first⟩, ⟨source + 1, second⟩]
  | abs =>
    if d.operand? 0 = some .immediate then
      if 1 < d.operands.length then [⟨1, first⟩] else []
    else [⟨0, first⟩]
  | rlc =>
    if d.operand? 0 = some .immediate then [⟨1, destination⟩]
    else ⟨0, destination⟩ :: if d.operands.length = 3 then [⟨1, first⟩] else []
  | _ => []

end TriCore.Format

namespace TriCore.Descriptor

open Format

/-- The first demand for a slot that is not declared a register. -/
def firstUndeclared? (d : Descriptor) (demands : List Demand) : Option Demand :=
  demands.find? fun demand => (d.register? demand.slot).isNone

/-- The demands before the first one for a slot that is not declared a register. Only their
registers are looked up. -/
def lookedUp (d : Descriptor) (demands : List Demand) : List Demand :=
  demands.takeWhile fun demand => (d.register? demand.slot).isSome

variable {d : Descriptor} {demand : Demand} {demands : List Demand}

theorem firstUndeclared?_cons_of_eq_none (h : d.register? demand.slot = none) :
    d.firstUndeclared? (demand :: demands) = some demand :=
  List.find?_cons_of_pos (by rw [h]; rfl)

theorem firstUndeclared?_cons_of_eq_some {cls : RegisterClass}
    (h : d.register? demand.slot = some cls) :
    d.firstUndeclared? (demand :: demands) = d.firstUndeclared? demands :=
  List.find?_cons_of_neg (by rw [h]; exact Bool.false_ne_true)

theorem lookedUp_cons_of_eq_some {cls : RegisterClass} (h : d.register? demand.slot = some cls) :
    d.lookedUp (demand :: demands) = demand :: d.lookedUp demands :=
  List.takeWhile_cons_of_pos (by rw [h]; rfl)

/-- Some demand is not declared a register exactly if there is a first one. -/
theorem firstUndeclared?_ne_none_iff :
    d.firstUndeclared? demands ≠ none ↔ ∃ demand ∈ demands, d.register? demand.slot = none := by
  simp only [firstUndeclared?, ne_eq, List.find?_eq_none, Option.isNone_iff_eq_none, not_forall,
    not_not, exists_prop]

end TriCore.Descriptor

namespace TriCore.Format

open Source

/-! ### Formats that do not ask the descriptor -/

/-- A source that is the same for every descriptor and yields no register but of class `data`. -/
def Source.Fixed : Source → Prop
  | data _ | immediate _ => True
  | declared _ | again => False

instance : (source : Source) → Decidable source.Fixed
  | data _ | immediate _ => .isTrue trivial
  | declared _ | again => .isFalse id

theorem fixed_layouts {f : Format} (h : f ∉ descriptorDriven) :
    ∀ sources ∈ f.layouts, ∀ source ∈ sources, source.Fixed := by
  revert h
  cases f <;> decide

/-- Formats outside the eleven have one layout. -/
theorem layout_congr {f : Format} (h : f ∉ descriptorDriven) (d d' : Descriptor) :
    f.layout d = f.layout d' := by
  revert h
  cases f <;> first | exact fun _ => rfl | exact fun h => absurd (by decide) h

/-- Fixed sources are collected alike for all opcodes and descriptors. -/
theorem collect_of_fixed {file : RegisterFile} {w : Word} {sources : List Source}
    (hfixed : ∀ source ∈ sources, source.Fixed) (o o' : Opcode) (d d' : Descriptor)
    (operands : List Operand) :
    (collect ⟨file, d⟩ w sources ⟨o, operands⟩).result =
        (collect ⟨file, d'⟩ w sources ⟨o', operands⟩).result ∧
      (collect ⟨file, d⟩ w sources ⟨o, operands⟩).draft.operands =
        (collect ⟨file, d'⟩ w sources ⟨o', operands⟩).draft.operands := by
  induction sources generalizing operands with
  | nil => exact ⟨rfl, rfl⟩
  | cons source sources ih =>
    have hsame : source.operand? ⟨file, d⟩ w operands = source.operand? ⟨file, d'⟩ w operands := by
      have hsource := hfixed source List.mem_cons_self
      cases source with
      | data offset | immediate pieces => rfl
      | declared offset | again => exact absurd hsource id
    simp only [collect, hsame]
    cases source.operand? ⟨file, d'⟩ w operands with
    | error halt => exact ⟨rfl, rfl⟩
    | ok operand => exact ih (fun source hs => hfixed source (List.mem_cons_of_mem _ hs)) _

/-! ### Demands of a layout -/

/-- The demands of sources whose first fills the given slot. -/
def demandsFrom (slot : Nat) : List Source → List Demand
  | [] => []
  | declared offset :: sources => ⟨slot, offset⟩ :: demandsFrom (slot + 1) sources
  | _ :: sources => demandsFrom (slot + 1) sources

/-- The demands of a format are those of the declared sources of its layout. -/
theorem demandsFrom_of_layout {f : Format} {d : Descriptor} {sources : List Source}
    (h : f.layout d = .ok sources) : demandsFrom 0 sources = f.demands d := by
  have ordered {g : Bool → List Source} (h : (leadsWithRegister d).map g = .ok sources) :
      d.operand? 0 = some .immediate ∧ sources = g false ∨
        d.operand? 0 ≠ some .immediate ∧ sources = g true := by
    rcases leadsWithRegister_cases d with ⟨-, hlead⟩ | ⟨himmediate, hlead⟩ | ⟨cls, hregister, hlead⟩
    · rw [hlead] at h
      cases h
    · rw [hlead] at h
      cases h
      exact .inl ⟨himmediate, rfl⟩
    · rw [hlead] at h
      cases h
      refine .inr ⟨?_, rfl⟩
      rw [hregister]
      exact fun h => by cases h
  cases f
  case abs =>
    rcases ordered h with ⟨hslot, rfl⟩ | ⟨hslot, rfl⟩
    · simp only [demands, if_pos hslot]
      split <;> rfl
    · simp only [demands, if_neg hslot]
      rfl
  case rlc =>
    rcases ordered h with ⟨hslot, rfl⟩ | ⟨hslot, rfl⟩
    · simp only [demands, if_pos hslot]
      rfl
    · simp only [demands, if_neg hslot]
      split <;> rfl
  case rc | rr =>
    cases h
    simp only [demands, destinationSources]
    split <;> rfl
  all_goals
    cases h
    rfl

/-- If nothing is declared for slot `0`, the formats that order their operands by it ask for it. -/
theorem firstUndeclared?_of_unordered {f : Format} (hf : f = abs ∨ f = rlc) {d : Descriptor}
    (h : d.operand? 0 = none) : ∃ offset, d.firstUndeclared? (f.demands d) = some ⟨0, offset⟩ := by
  have hclass : d.register? 0 = none := by rw [Descriptor.register?, h]
  have hslot : d.operand? 0 ≠ some .immediate := by rw [h]; exact nofun
  rcases hf with rfl | rfl
  · refine ⟨first, ?_⟩
    simp only [demands, if_neg hslot]
    exact Descriptor.firstUndeclared?_cons_of_eq_none hclass
  · refine ⟨destination, ?_⟩
    simp only [demands, if_neg hslot]
    exact Descriptor.firstUndeclared?_cons_of_eq_none hclass

/-! ### Repetitions -/

theorem again_not_mem_layouts {f : Format} (h : f ≠ rc ∧ f ≠ rr) :
    ∀ sources ∈ f.layouts, again ∉ sources := by
  revert h
  cases f <;> decide

theorem tied_of_again_destinationSources {d : Descriptor} {rest : List Source}
    (hrest : again ∉ rest) {slot : Nat}
    (hslot : (destinationSources d ++ rest)[slot]? = some again) :
    d.isTied = true ∧ slot = 1 := by
  unfold destinationSources at hslot
  cases htied : d.isTied with
  | false =>
    rw [htied] at hslot
    have hmem : again ∈ declared destination :: rest := List.mem_of_getElem? hslot
    rcases List.mem_cons.mp hmem with hagain | hagain
    · cases hagain
    · exact absurd hagain hrest
  | true =>
    rw [htied] at hslot
    match slot with
    | 0 => cases hslot
    | 1 => exact ⟨rfl, rfl⟩
    | slot + 2 =>
      have htail : rest[slot]? = some again := hslot
      exact absurd (List.mem_of_getElem? htail) hrest

/-- Only a tied destination of `rc` or `rr` is repeated, into slot `1`. -/
theorem tied_of_again {f : Format} {d : Descriptor} {sources : List Source}
    (h : f.layout d = .ok sources) {slot : Nat} (hslot : sources[slot]? = some again) :
    (f = rc ∨ f = rr) ∧ d.isTied = true ∧ slot = 1 := by
  by_cases hf : f = rc ∨ f = rr
  · refine ⟨hf, ?_⟩
    rcases hf with rfl | rfl
    · cases h
      exact tied_of_again_destinationSources (by decide) hslot
    · cases h
      exact tied_of_again_destinationSources (by decide) hslot
  · have hagain := again_not_mem_layouts (not_or.mp hf) sources (mem_layouts h)
    exact absurd (List.mem_of_getElem? hslot) hagain

/-- A tied destination of `rc` or `rr` is followed by its repetition. -/
theorem exists_layout_eq_again {f : Format} (hf : f = rc ∨ f = rr) {d : Descriptor}
    (htied : d.isTied = true) : ∃ rest,
      f.layout d = .ok (declared destination :: again :: rest) := by
  rcases hf with rfl | rfl <;>
    exact ⟨_, by simp only [layout, destinationSources, htied, if_true]; rfl⟩

/-! ### The course of a collection -/

/-- The source is a register whose class does not depend on the descriptor. -/
def Source.FixesClass : Source → Prop
  | data _ => True
  | _ => False

instance : (source : Source) → Decidable source.FixesClass
  | data _ => .isTrue trivial
  | declared _ | again | immediate _ => .isFalse id

theorem not_fixesClass_layouts {f : Format} (h : f ∈ descriptorDriven) :
    ∀ sources ∈ f.layouts, ∀ source ∈ sources, ¬source.FixesClass := by
  revert h
  cases f <;> decide

namespace Collects

variable {context : Context} {bits : BitVec 32} {before fresh : List Operand}
  {sources : List Source} {result : Except DecodeError Unit}

/-- If the sources yield no registers but of declared classes, each register that is added has the
class that is declared for its slot, but for a repetition. -/
theorem class_of_declared (h : Collects context bits before sources fresh result)
    (hdeclared : ∀ source ∈ sources, ¬source.FixesClass) {n : Nat} {cls : RegisterClass}
    {r : Register} (hfresh : fresh[n]? = some (.register cls r)) :
    context.descriptor.register? (before.length + n) = some cls ∨ sources[n]? = some again := by
  induction h generalizing n with
  | done => cases hfresh
  | rejected _ => cases hfresh
  | @yielded before source sources operand fresh result hsource hrest ih =>
    cases n with
    | zero =>
      obtain rfl := Option.some.inj hfresh
      cases hsource with
      | data _ => exact absurd trivial (hdeclared _ List.mem_cons_self)
      | declared hclass _ => exact .inl hclass
      | again _ => exact .inr rfl
    | succ n =>
      have hlength : (before ++ [operand]).length + n = before.length + (n + 1) := by
        rw [List.length_append, List.length_singleton]
        omega
      rw [← hlength, List.getElem?_cons_succ]
      exact ih (fun source hs => hdeclared source (List.mem_cons_of_mem _ hs)) hfresh

/-- A repeated operand is the same twice. -/
theorem copy_of_again {offset : Nat} {rest : List Source}
    (h : Collects context bits before (declared offset :: again :: rest) fresh (.ok ())) :
    ∃ operand, fresh[0]? = some operand ∧ fresh[1]? = some operand := by
  cases h with
  | @yielded _ _ _ operand _ _ _ hrest =>
    cases hrest with
    | yielded hagain _ =>
      cases hagain with
      | again hlast =>
        rw [List.getLast?_concat] at hlast
        exact ⟨operand, rfl, hlast.symm⟩

/-- If the sources yield no registers but of declared classes and all numbers that are looked up are
present, the collection is rejected for the first demand for a slot that is not declared a register,
with as many operands as there are slots before it, and otherwise comes to its end. -/
theorem result_of_present (h : Collects context bits before sources fresh result)
    (hdeclared : ∀ source ∈ sources, ¬source.FixesClass)
    (hpresent : ∀ demand ∈ context.descriptor.lookedUp (demandsFrom before.length sources),
      demand.Present context bits) :
    (∀ demand, context.descriptor.firstUndeclared? (demandsFrom before.length sources) =
        some demand →
      result = .error (.undeclaredRegister demand.slot) ∧
        before.length + fresh.length = demand.slot) ∧
    (context.descriptor.firstUndeclared? (demandsFrom before.length sources) = none →
      result = .ok ()) := by
  induction h with
  | done => exact ⟨fun _ hdemand => (by cases hdemand), fun _ => rfl⟩
  | rejected hsource =>
    cases hsource with
    | data _ => exact absurd trivial (hdeclared _ List.mem_cons_self)
    | declared hclass hentry =>
      rw [demandsFrom, Descriptor.lookedUp_cons_of_eq_some hclass] at hpresent
      obtain ⟨r, hr⟩ := hpresent _ List.mem_cons_self _ hclass
      rw [hentry] at hr
      cases hr
    | undeclared hclass =>
      rw [demandsFrom, Descriptor.firstUndeclared?_cons_of_eq_none hclass]
      refine ⟨fun demand hdemand => ?_, fun hnone => by cases hnone⟩
      cases hdemand
      exact ⟨rfl, rfl⟩
  | @yielded before source sources operand fresh result hsource hrest ih =>
    have hlength : (before ++ [operand]).length = before.length + 1 := List.length_append
    -- Only a declared source makes a demand, and the one that yields an operand is met.
    have hdemands :
        context.descriptor.firstUndeclared? (demandsFrom before.length (source :: sources)) =
            context.descriptor.firstUndeclared? (demandsFrom (before ++ [operand]).length sources) ∧
          ∀ demand ∈ context.descriptor.lookedUp
              (demandsFrom (before ++ [operand]).length sources),
            demand ∈ context.descriptor.lookedUp
              (demandsFrom before.length (source :: sources)) := by
      rw [hlength]
      cases hsource with
      | data _ => exact absurd trivial (hdeclared _ List.mem_cons_self)
      | declared hclass _ =>
        rw [demandsFrom, Descriptor.firstUndeclared?_cons_of_eq_some hclass,
          Descriptor.lookedUp_cons_of_eq_some hclass]
        exact ⟨rfl, fun _ hdemand => List.mem_cons_of_mem _ hdemand⟩
      | again _ | immediate => exact ⟨rfl, fun _ hdemand => hdemand⟩
    rw [hdemands.1, List.length_cons, ← Nat.add_assoc, Nat.add_right_comm, ← hlength]
    exact ih (fun source hs => hdeclared source (List.mem_cons_of_mem _ hs))
      fun demand hdemand => hpresent demand (hdemands.2 demand hdemand)

end Collects

/-! ### What is decided -/

/-- A format outside the eleven gives the same for all opcodes and descriptors. -/
theorem decode_congr {f : Format} (hf : f ∉ descriptorDriven) (file : RegisterFile) (w : Word)
    (o o' : Opcode) (d d' : Descriptor) :
    (f.decode ⟨file, d⟩ w (.start o)).result = (f.decode ⟨file, d'⟩ w (.start o')).result ∧
      (f.decode ⟨file, d⟩ w (.start o)).draft.operands =
        (f.decode ⟨file, d'⟩ w (.start o')).draft.operands := by
  by_cases hfits : f.Fits w
  · simp only [decode, if_pos hfits, layout_congr hf d d']
    cases hlayout : f.layout d' with
    | error error => exact ⟨rfl, rfl⟩
    | ok sources =>
      exact collect_of_fixed (fixed_layouts hf sources (mem_layouts hlayout)) o o' d d' []
  · have hunfit (context : Context) (draft : Draft) : f.decode context w draft =
        ⟨draft, .error (.rejected (.widthMismatch f.width))⟩ := if_neg hfits
    rw [hunfit, hunfit]
    exact ⟨rfl, rfl⟩

/-- A format outside the eleven adds data registers only. -/
theorem class_of_not_mem {f : Format} (hf : f ∉ descriptorDriven) (context : Context) (w : Word)
    (o : Opcode) {cls : RegisterClass} {r : Register}
    (hmem : .register cls r ∈ (f.decode context w (.start o)).draft.operands) : cls = .data := by
  rcases f.decode_cases context w (.start o) with ⟨-, hdecode⟩ | ⟨-, -, -, hdecode⟩ |
    ⟨-, sources, fresh, result, hlayout, hdecode, hcollects⟩
  · rw [hdecode] at hmem
    exact absurd hmem List.not_mem_nil
  · rw [hdecode] at hmem
    exact absurd hmem List.not_mem_nil
  · rw [hdecode] at hmem
    have hsources := mem_layouts hlayout
    have hdata := hcollects.forall_mem (P := fun operand => ∀ cls r,
        operand = .register cls r → cls = .data)
      (fun source hsource _ before operand hyields cls r hoperand => by
        have hfixed := fixed_layouts hf sources hsources source hsource
        cases hyields with
        | data _ =>
          cases hoperand
          rfl
        | declared _ _ | again _ => exact absurd hfixed id
        | immediate => cases hoperand)
      fun hagain => absurd hagain (head?_layouts_ne_again f sources hsources)
    exact hdata _ hmem cls r rfl

section

variable {f : Format} {file : RegisterFile} {d : Descriptor} {bits : BitVec 32}
  {sources : List Source} {fresh : List Operand} {result : Except DecodeError Unit}

/-- Each register that one of the eleven adds has the class that its slot declares, but for a
repeated destination. -/
theorem class_of_layout (hf : f ∈ descriptorDriven) (hlayout : f.layout d = .ok sources)
    (h : Collects ⟨file, d⟩ bits [] sources fresh result) {slot : Nat} {cls : RegisterClass}
    {r : Register} (hslot : fresh[slot]? = some (.register cls r)) :
    d.register? slot = some cls ∨ (f = rc ∨ f = rr) ∧ d.isTied = true ∧ slot = 1 := by
  have hdeclared := not_fixesClass_layouts hf sources (mem_layouts hlayout)
  rcases h.class_of_declared hdeclared hslot with hclass | hagain
  · rw [List.length_nil, Nat.zero_add] at hclass
    exact .inl hclass
  · exact .inr (tied_of_again hlayout hagain)

/-- If all numbers that are looked up are present, one of the eleven is rejected exactly if it makes
a demand for a slot that is not declared a register, and for the first one. -/
theorem result_of_layout (hf : f ∈ descriptorDriven) (hlayout : f.layout d = .ok sources)
    (h : Collects ⟨file, d⟩ bits [] sources fresh result)
    (hpresent : ∀ demand ∈ d.lookedUp (f.demands d), demand.Present ⟨file, d⟩ bits) :
    (orReject result ≠ .ok () ↔ ∃ demand ∈ f.demands d, d.register? demand.slot = none) ∧
      ∀ demand, d.firstUndeclared? (f.demands d) = some demand →
        orReject result = .error (.rejected (.undeclaredRegister demand.slot)) ∧
          fresh.length = demand.slot := by
  have hdeclared := not_fixesClass_layouts hf sources (mem_layouts hlayout)
  rw [← Descriptor.firstUndeclared?_ne_none_iff]
  rw [← demandsFrom_of_layout hlayout] at hpresent ⊢
  obtain ⟨hrejected, hdone⟩ := h.result_of_present hdeclared hpresent
  refine ⟨⟨fun hfails hnone => ?_, fun hsome hok => ?_⟩, fun demand hdemand => ?_⟩
  · rw [hdone hnone] at hfails
    exact hfails rfl
  · obtain ⟨demand, hdemand⟩ := Option.ne_none_iff_exists'.mp hsome
    rw [(hrejected demand hdemand).1] at hok
    cases hok
  · obtain ⟨rfl, hlength⟩ := hrejected demand hdemand
    rw [List.length_nil, Nat.zero_add] at hlength
    exact ⟨rfl, hlength⟩

end

/-- **What the descriptor decides.** A format outside the eleven gives the same operands and the
same result for all opcodes and descriptors, and its registers are data registers. For the eleven,
if reading the operands of a word succeeds, each register has the class that the descriptor declares
for its slot; only a tied destination of `rc` or `rr` fills slot `1` with what is in slot `0`. If
the word fits the format and all numbers that are looked up are present in their banks, reading
fails exactly if a demand is for a slot that is not declared a register. The first such slot is
reported, and it is the number of operands read before. -/
theorem decode_declares (f : Format) (file : RegisterFile) (w : Word) :
    (f ∉ descriptorDriven → ∀ (o o' : Opcode) (d d' : Descriptor),
      (f.decode ⟨file, d⟩ w (.start o)).result = (f.decode ⟨file, d'⟩ w (.start o')).result ∧
      (f.decode ⟨file, d⟩ w (.start o)).draft.operands =
        (f.decode ⟨file, d'⟩ w (.start o')).draft.operands ∧
      ∀ cls r, .register cls r ∈ (f.decode ⟨file, d⟩ w (.start o)).draft.operands →
        cls = .data) ∧
    (f ∈ descriptorDriven → ∀ (o : Opcode) (d : Descriptor), ∃ operands result,
      f.decode ⟨file, d⟩ w (.start o) = ⟨⟨o, operands⟩, result⟩ ∧
      (result = .ok () →
        (∀ slot cls r, operands[slot]? = some (.register cls r) →
          d.register? slot = some cls ∨ (f = .rc ∨ f = .rr) ∧ d.isTied = true ∧ slot = 1) ∧
        ((f = .rc ∨ f = .rr) → d.isTied = true →
          ∃ operand, operands[0]? = some operand ∧ operands[1]? = some operand)) ∧
      (f.Fits w → (∀ demand ∈ d.lookedUp (f.demands d), demand.Present ⟨file, d⟩ w.bits) →
        (result ≠ .ok () ↔ ∃ demand ∈ f.demands d, d.register? demand.slot = none) ∧
        ∀ demand, d.firstUndeclared? (f.demands d) = some demand →
          result = .error (.rejected (.undeclaredRegister demand.slot)) ∧
            operands.length = demand.slot)) := by
  refine ⟨fun hf o o' d d' => ?_, fun hf o d => ?_⟩
  · obtain ⟨hresult, hoperands⟩ := decode_congr hf file w o o' d d'
    exact ⟨hresult, hoperands, fun cls r hmem => class_of_not_mem hf ⟨file, d⟩ w o hmem⟩
  · rcases f.decode_cases ⟨file, d⟩ w (.start o) with ⟨hfits, hdecode⟩ |
      ⟨-, hformat, hnone, hdecode⟩ | ⟨-, sources, fresh, result, hlayout, hdecode, hcollects⟩
    · exact ⟨[], _, hdecode, fun hok => (by cases hok), fun hfits' => absurd hfits' hfits⟩
    · obtain ⟨offset, hfirst⟩ := firstUndeclared?_of_unordered hformat hnone
      refine ⟨[], _, hdecode, fun hok => (by cases hok), fun _ _ => ⟨?_, fun demand hdemand => ?_⟩⟩
      · rw [← Descriptor.firstUndeclared?_ne_none_iff, hfirst]
        exact iff_of_true (fun hok => by cases hok) (fun h => by cases h)
      · obtain rfl := Option.some.inj (hfirst.symm.trans hdemand)
        exact ⟨rfl, rfl⟩
    · refine ⟨fresh, _, hdecode, fun hok => ⟨fun slot cls r hslot => ?_, fun hformat htied => ?_⟩,
        fun _ hpresent => result_of_layout hf hlayout hcollects hpresent⟩
      · exact class_of_layout hf hlayout hcollects hslot
      · cases result with
        | error error => cases hok
        | ok _ =>
          obtain ⟨rest, hrest⟩ := exists_layout_eq_again hformat htied
          obtain rfl := Except.ok.inj (hlayout.symm.trans hrest)
          exact hcollects.copy_of_again

/-- A tied destination whose first source is not declared a register: slot `2` is reported, when the
destination has been read twice, and that slot `1` is declared an immediate does not matter. A
format that reads data registers only does not look at the descriptor. -/
theorem decode_declares_tied :
    let d : Descriptor := .tied [.extended, .immediate, .immediate, .data]
    rr.Fits (.long 0x3F02A50B) ∧
      rr.decode ⟨.standard, d⟩ (.long 0x3F02A50B) (.start .addRr) =
        ⟨⟨.addRr, [.register .extended ⟨34⟩, .register .extended ⟨34⟩]⟩,
          .error (.rejected (.undeclaredRegister 2))⟩ ∧
      (∃ operands, rr.decode ⟨.standard, d⟩ (.long 0x3F02A50B) (.start .addRr) =
          ⟨⟨.addRr, operands⟩, .error (.rejected (.undeclaredRegister 2))⟩ ∧
        operands.length = 2) ∧
      (rr2.decode ⟨.standard, d⟩ (.long 0x3F02A50B) (.start .mulRr2)).draft.operands =
        (rr2.decode ⟨.standard, .empty⟩ (.long 0x3F02A50B) (.start .mulURr2)).draft.operands := by
  intro d
  have hfits : rr.Fits (.long 0x3F02A50B) := by decide
  have hpresent : ∀ demand ∈ d.lookedUp (rr.demands d),
      demand.Present ⟨.standard, d⟩ (Word.long 0x3F02A50B).bits := by
    have hlookedUp : d.lookedUp (rr.demands d) = [⟨0, destination⟩] := by rfl
    rw [hlookedUp, List.forall_mem_singleton]
    intro cls hclass
    obtain rfl : RegisterClass.extended = cls := Option.some.inj hclass
    exact ⟨⟨34⟩, by rfl⟩
  refine ⟨hfits, by rfl, ?_, ?_⟩
  · obtain ⟨operands, result, hdecode, -, hfails⟩ :=
      (decode_declares rr .standard (.long 0x3F02A50B)).2 (by decide) .addRr d
    obtain ⟨rfl, hlength⟩ := (hfails hfits hpresent).2 ⟨2, first⟩ (by rfl)
    exact ⟨operands, hdecode, hlength⟩
  · exact ((decode_declares rr2 .standard (.long 0x3F02A50B)).1 (by decide) .mulRr2 .mulURr2 d
      .empty).2.1

end TriCore.Format
