import TriCore.Proofs.Chart.Exclusion
import TriCore.Proofs.Decision.Arrangement
import TriCore.Proofs.Decision.Reading
import TriCore.Proofs.Word.Deposit

/-!
# The tables as flat lists of masks and values

A pattern of the chart is one mask and one value: the primary opcode of its opcode in the lowest
bits of the word and, where the primary opcode selects a group, the secondary opcode in its field.
The table of a width recognises exactly these masks and values. It offers its caller the one
candidate whose pattern the word has, and nothing if the word has none; no word has two, so that the
order of the arms and the tests in front of the main selection decide nothing.

## Main definitions

* `Chart.Pattern.mask`, `Chart.Pattern.value`, `Chart.Pattern.Accepts` : a pattern as one mask and
  one value, and the words that have it.
* `Opcode.primaryField`, `Opcode.EnabledBy` : the bits that hold the primary opcode of an opcode,
  and the features that it needs.
* `Chart.plan`, `Chart.selection` : the plan of a width, and its main selection alone.

## Main results

* `Chart.accepts_iff_matches` : the mask and the value of a pattern test all of its fields.
* `Chart.distinct_plan` : the arms of the architecture's plans can be told apart.
* `Chart.walk_iff_accepts` : what a walk over the architecture's tables offers.
-/

namespace TriCore

open Decision

/-- The caller that takes the first candidate it is offered. -/
def Decision.accepting : Offer Unit Candidate := fun _ candidate s => (.ok candidate, s)

/-! ### Opcodes and their needs -/

/-- The bits that hold the primary opcode of an opcode: the lowest eight, unless the format of the
opcode keeps a piece of an operand in the highest of them. -/
def Opcode.primaryField : Opcode → Field
  | .addscASrrs => ⟨0, 6⟩
  | .jzTBrn | .jnzTBrn => ⟨0, 7⟩
  | _ => Chart.primaryField

/-- The features suffice for an opcode: the short branches with a longer displacement need
revision 1.6.1, and all others need nothing. -/
def Opcode.EnabledBy (o : Opcode) (features : Features) : Prop :=
  o = .jeqSbc2 ∨ o = .jneSbc2 → features.Contains .tc161

instance (o : Opcode) (features : Features) : Decidable (o.EnabledBy features) :=
  inferInstanceAs (Decidable (_ → _))

namespace Chart

/-! ### Masks and values -/

namespace Pattern

/-- The bits of a word that a pattern tests. -/
def mask (p : Pattern) : BitVec 32 := Field.union (p.fields.map Prod.fst)

/-- The values that a pattern demands of them, each in its place. -/
def value (p : Pattern) : BitVec 32 := Field.depositAll p.fields 0

/-- A word has the value of a pattern under its mask. -/
def Accepts (p : Pattern) (w : Word) : Prop := w.bits &&& p.mask = p.value

instance (p : Pattern) (w : Word) : Decidable (p.Accepts w) := inferInstanceAs (Decidable (_ = _))

/-- A pattern tests the primary opcode of its opcode, and may test one further field, which lies
behind the primary opcode. -/
def TestsOpcode (p : Pattern) : Prop :=
  ∃ (primary : BitVec 32) (secondary : Option (Field × BitVec 32)),
    p.fields = (p.candidate.opcode.primaryField, primary) :: secondary.toList ∧
      ∀ test ∈ secondary, primaryField.Apart test.1

end Pattern

variable {width : Width} {p : Pattern}

theorem testsOpcode_of_mem (hp : p ∈ patterns width) : p.TestsOpcode := by
  have hshape : ∀ q ∈ patterns width, q.fields.head?.map Prod.fst =
      some q.candidate.opcode.primaryField ∧ q.fields.length ≤ 2 ∧
        ∀ test ∈ q.fields.tail, primaryField.Apart test.1 := by
    cases width <;> decide +kernel
  obtain ⟨hhead, hlength, htail⟩ := hshape p hp
  obtain ⟨⟨_, primary⟩, hprimary, rfl⟩ := Option.map_eq_some_iff.mp hhead
  obtain ⟨rest, hfields⟩ := List.head?_eq_some_iff.mp hprimary
  rw [hfields, List.length_cons] at hlength
  rw [hfields, List.tail_cons] at htail
  match rest, hlength, htail, hfields with
  | [], _, _, hfields => exact ⟨primary, none, hfields, by simp⟩
  | [test], _, htail, hfields =>
    exact ⟨primary, some test, hfields, by simpa using htail⟩

/-- The fields that a pattern tests share no bit. -/
theorem tests_apart (hp : p ∈ patterns width) :
    p.fields.Pairwise fun a b => a.1.Apart b.1 := by
  revert p
  cases width <;> decide +kernel

theorem tests_inside (hp : p ∈ patterns width) :
    ∀ test ∈ p.fields, test.1.offset + test.1.width ≤ 32 := by
  revert p
  cases width <;> decide +kernel

/-- The constants of a pattern fit in their fields. -/
theorem constants_fit (hp : p ∈ patterns width) :
    ∀ test ∈ p.fields, test.2.toNat < 2 ^ test.1.width := by
  revert p
  cases width <;> decide +kernel

/-- The mask and the value of a pattern test all of its fields at once. -/
theorem accepts_iff_matches (hp : p ∈ patterns width) {w : Word} : p.Accepts w ↔ p.Matches w :=
  Field.and_union_eq_depositAll_iff (tests_apart hp) (tests_inside hp) (constants_fit hp) w.bits

theorem contains_features_iff (hp : p ∈ patterns width) {features : Features} :
    features.Contains p.features ↔ p.candidate.opcode.EnabledBy features := by
  have hneeds : ∀ q ∈ patterns width, q.features =
      if q.candidate.opcode = .jeqSbc2 ∨ q.candidate.opcode = .jneSbc2 then .tc161 else .empty := by
    cases width <;> decide +kernel
  rw [hneeds p hp, Opcode.EnabledBy]
  split
  case isTrue h => exact ⟨fun hcontains _ => hcontains, fun henabled => henabled h⟩
  case isFalse h => exact ⟨fun _ hopcode => absurd hopcode h, fun _ => contains_empty features⟩

theorem recognises_iff (hp : p ∈ patterns width) {w : Word} {features : Features} :
    p.Recognises w features ↔ p.Accepts w ∧ p.candidate.opcode.EnabledBy features := by
  rw [accepts_iff_matches hp, ← contains_features_iff hp]
  exact Iff.rfl

/-! ### The plans -/

/-- The plan that recognises the words of a width. -/
def plan : Width → Plan
  | .short => shortPlan
  | .long => longPlan

theorem ofWidth_eq_plan (width : Width) :
    Table.ofWidth width = ⟨width, (plan width).ops⟩ := by cases width <;> rfl

/-- The entries of the main selection of a width. -/
def entries : Width → List Entry
  | .short => shortEntries
  | .long => longEntries

/-- The main selection of a width, without the tests in front of it. -/
def selection (width : Width) : Plan := byPrimary (entries width)

/-- The patterns of the main selection. -/
def selected (width : Width) : List Pattern := (entries width).flatMap Entry.patterns

theorem mem_of_mem_selected (hp : p ∈ selected width) : p ∈ patterns width := by
  cases width with
  | short => exact List.mem_cons_of_mem _ hp
  | long => exact List.mem_cons_of_mem _ (List.mem_cons_of_mem _ hp)

theorem nodup_primaries (width : Width) : ((entries width).flatMap Entry.primaries).Nodup := by
  cases width with
  | short => exact nodup_primaries_short
  | long => exact nodup_primaries_long

theorem wellFormed_entries (width : Width) : ∀ e ∈ entries width, e.WellFormed := by
  cases width with
  | short => exact wellFormed_short
  | long => exact wellFormed_long

theorem distinct_select_bindings (field : Field) (format : Format)
    {opcodes : List (BitVec 32 × Opcode)} (h : (opcodes.map Prod.fst).Nodup) :
    (Plan.select field (bindings format opcodes)).Distinct := by
  refine ⟨by simpa [bindings, Function.comp_def] using h, Plan.armsDistinct_iff.mpr ?_⟩
  intro arm harm
  obtain ⟨entry, -, rfl⟩ := List.mem_map.mp harm
  trivial

theorem Entry.distinct_of_mem_arms {e : Entry} (hwf : e.WellFormed) {arm : BitVec 32 × Plan}
    (harm : arm ∈ e.arms) : arm.2.Distinct := by
  cases e with
  | direct format opcodes =>
    obtain ⟨entry, -, rfl⟩ := List.mem_map.mp harm
    trivial
  | gated features primary format opcode =>
    rw [List.mem_singleton.mp harm]
    trivial
  | secondary primary field format opcodes =>
    rw [List.mem_singleton.mp harm]
    exact distinct_select_bindings field format hwf.2

theorem distinct_selection (width : Width) : (selection width).Distinct := by
  have hvalues : (((entries width).flatMap Entry.arms).map Prod.fst).Nodup := by
    rw [List.map_flatMap]
    exact nodup_primaries width
  refine ⟨hvalues, Plan.armsDistinct_iff.mpr fun arm harm => ?_⟩
  obtain ⟨e, he, harm⟩ := List.mem_flatMap.mp harm
  exact Entry.distinct_of_mem_arms (wellFormed_entries width e he) harm

/-- The arms of the architecture's plans can be told apart. -/
theorem distinct_plan (width : Width) : (plan width).Distinct := by
  cases width with
  | short => exact ⟨trivial, distinct_selection .short⟩
  | long =>
    have hfront : (Plan.select ⟨31, 1⟩ (bindings .brn [(0, .jzTBrn), (1, .jnzTBrn)])).Distinct :=
      distinct_select_bindings ⟨31, 1⟩ .brn (by decide)
    exact ⟨hfront, distinct_selection .long⟩

/-! ### Walking the tables -/

section Walk

variable {σ α : Type} (offer : Offer σ α) (s : σ)

/-- A walk offers the candidate of a pattern that recognises the word, and nothing else. -/
theorem walk_of_recognises (hp : p ∈ patterns width) {w : Word} {features : Features}
    (h : p.Recognises w features) :
    (Table.ofWidth width).walk w features offer s = offer .final p.candidate s := by
  rw [walk_ofWidth, find?_recognises_eq_some hp h]
  rfl

/-- A walk offers nothing if no pattern recognises the word. -/
theorem walk_of_not_recognises {w : Word} {features : Features}
    (h : ∀ p ∈ patterns width, ¬p.Recognises w features) :
    (Table.ofWidth width).walk w features offer s =
      (.error (.rejected (.noTableMatch w.bits w.width)), s) := by
  rw [walk_ofWidth, find?_recognises_eq_none h]
  rfl

/-- The main selection alone offers the candidate of the first of its own patterns that recognises
the word. -/
theorem walk_selection (width : Width) (w : Word) (features : Features) :
    (Table.mk width (selection width).ops).walk w features offer s =
      answerTo w offer ((selected width).find? (·.Recognises w features)) s := by
  have layout := Plan.walk_ops_append w features offer [] 0 (selection width) s
  rw [List.append_nil] at layout
  exact layout.trans (follow_byPrimary w features offer (entries width) (nodup_primaries width)
    (wellFormed_entries width) _ s)

/-- A word with a pattern of the main selection is walked as if the main selection were alone. -/
theorem walk_selection_eq (hp : p ∈ selected width) {w : Word} (h : p.Matches w)
    (features : Features) :
    (Table.mk width (selection width).ops).walk w features offer s =
      (Table.ofWidth width).walk w features offer s := by
  rw [walk_selection]
  cases hfind : (selected width).find? (·.Recognises w features) with
  | some q =>
    obtain ⟨hq, hrecognises⟩ := recognises_of_find?_eq_some hfind
    rw [walk_of_recognises offer s (mem_of_mem_selected hq) hrecognises]
    rfl
  | none =>
    refine (walk_of_not_recognises offer s fun q hq hrecognises => ?_).symm
    -- The only pattern that could recognise the word is `p`, which was not found.
    obtain rfl : q = p := eq_of_matches hq (mem_of_mem_selected hp) hrecognises.matches h
    exact List.find?_eq_none.mp hfind q hp (decide_eq_true hrecognises)

end Walk

/-- **The tables recognise exactly their masks and values.** The table of a width binds the
candidates of the patterns of this width. Each opcode has one pattern, which tests its primary
opcode and at most one further field, and no word has two patterns. A walk for a word offers the
caller the candidate whose pattern the word has, if the opcode is enabled, and returns the caller's
answer; otherwise it offers nothing and finds no match. The arms of the table may stand in any
order, and the tests in front of the main selection and the main selection take no word from one
another. -/
theorem walk_iff_accepts (width : Width) :
    (∀ c, (Table.ofWidth width).Binds c ↔ ∃ p ∈ patterns width, p.candidate = c) ∧
    (∀ p ∈ patterns width, p.TestsOpcode ∧
      ∀ q ∈ patterns width, q.candidate.opcode = p.candidate.opcode → q = p) ∧
    (∀ p ∈ patterns width, ∀ q ∈ patterns width, ∀ w : Word,
      p.Accepts w → q.Accepts w → p = q) ∧
    ∀ {σ α : Type} (w : Word) (features : Features) (offer : Offer σ α) (s : σ),
      (∀ p ∈ patterns width, p.Accepts w → p.candidate.opcode.EnabledBy features →
        let answer := offer .final p.candidate s
        (Table.ofWidth width).walk w features offer s = answer ∧
          (Table.ofWidth width).walk w features offer.recorded ([], s) =
            (answer.1, ([p.candidate], answer.2))) ∧
      ((∀ p ∈ patterns width, p.Accepts w → ¬p.candidate.opcode.EnabledBy features) →
        (Table.ofWidth width).walk w features offer s =
            (.error (.rejected (.noTableMatch w.bits w.width)), s) ∧
          (Table.ofWidth width).walk w features offer.recorded ([], s) =
            (.error (.rejected (.noTableMatch w.bits w.width)), ([], s))) ∧
      (∀ plan', (plan width).Rearranged plan' →
        (Table.mk width plan'.ops).walk w features offer s =
          (Table.ofWidth width).walk w features offer s) ∧
      (∀ p ∈ selected width, p.Accepts w →
        (Table.mk width (selection width).ops).walk w features offer s =
          (Table.ofWidth width).walk w features offer s) ∧
      ((∀ p ∈ selected width, ¬p.Accepts w) →
        (Table.mk width (selection width).ops).walk w features offer s =
          (.error (.rejected (.noTableMatch w.bits w.width)), s)) := by
  refine ⟨fun c => binds_ofWidth_iff, fun p hp => ⟨testsOpcode_of_mem hp, fun q hq hopcode =>
    eq_of_opcode_eq hq hp hopcode⟩, fun p hp q hq w hpw hqw => ?_, ?_⟩
  · exact eq_of_matches hp hq ((accepts_iff_matches hp).mp hpw) ((accepts_iff_matches hq).mp hqw)
  · intro σ α w features offer s
    refine ⟨fun p hp haccepts henabled => ?_, fun hnone => ?_, fun plan' hplan' => ?_,
      fun p hp haccepts => ?_, fun hnone => ?_⟩
    · have hrecognises := (recognises_iff hp).mpr ⟨haccepts, henabled⟩
      exact ⟨walk_of_recognises offer s hp hrecognises,
        walk_of_recognises offer.recorded ([], s) hp hrecognises⟩
    · have hunrecognised : ∀ p ∈ patterns width, ¬p.Recognises w features := by
        intro p hp hrecognises
        obtain ⟨haccepts, henabled⟩ := (recognises_iff hp).mp hrecognises
        exact hnone p hp haccepts henabled
      exact ⟨walk_of_not_recognises offer s hunrecognised,
        walk_of_not_recognises offer.recorded ([], s) hunrecognised⟩
    · rw [hplan'.walk_eq w features offer (distinct_plan width), ofWidth_eq_plan]
    · have hmatches := (accepts_iff_matches (mem_of_mem_selected hp)).mp haccepts
      exact walk_selection_eq offer s hp hmatches features
    · have hunrecognised : ∀ p ∈ selected width, ¬p.Recognises w features := by
        intro p hp hrecognises
        exact hnone p hp ((accepts_iff_matches (mem_of_mem_selected hp)).mpr hrecognises.matches)
      rw [walk_selection, find?_recognises_eq_none hunrecognised]
      rfl

/-- A short branch that needs revision 1.6.1 is offered if it is configured, also by the table with
its arms in the reverse order, and otherwise nothing is. -/
theorem walk_jeqSbc2 :
    let p : Pattern := ⟨[(primaryField, 0x9E)], .tc161, ⟨.jeqSbc2, .sbc⟩⟩
    let reversed : Plan := .seq (.test ⟨0, 6⟩ 0x10 (.commit ⟨.addscASrrs, .srrs⟩))
      (.select primaryField (shortEntries.flatMap Entry.arms).reverse)
    p ∈ patterns .short ∧ p.mask = 0xFF ∧ p.value = 0x9E ∧ p.Accepts (.short 0x119E) ∧
      Table.short.walk (.short 0x119E) .tc161 accepting.recorded ([], ()) =
        (.ok ⟨.jeqSbc2, .sbc⟩, ([⟨.jeqSbc2, .sbc⟩], ())) ∧
      (Table.mk .short reversed.ops).walk (.short 0x119E) .tc161 accepting () =
        (.ok ⟨.jeqSbc2, .sbc⟩, ()) ∧
      Table.short.walk (.short 0x119E) .tc16 accepting.recorded ([], ()) =
        (.error (.rejected (.noTableMatch 0x119E .short)), ([], ())) := by
  intro p reversed
  have hp : p ∈ patterns .short := by
    refine List.mem_cons_of_mem _ (List.mem_flatMap.mpr
      ⟨.gated .tc161 0x9E .sbc .jeqSbc2, ?_, List.mem_singleton_self _⟩)
    simp [shortEntries]
  have haccepts : p.Accepts (.short 0x119E) := by decide +kernel
  have hreversed : (plan .short).Rearranged reversed :=
    .seq (.refl _) (.select primaryField (List.reverse_perm _).symm)
  obtain ⟨-, -, -, hwalk⟩ := walk_iff_accepts .short
  obtain ⟨hoffered, -, horder, -⟩ := hwalk (.short 0x119E) .tc161 accepting ()
  obtain ⟨hanswer, hrecorded⟩ := hoffered p hp haccepts (by decide)
  refine ⟨hp, by decide +kernel, by decide +kernel, haccepts, hrecorded,
    (horder reversed hreversed).trans hanswer, ?_⟩
  exact ((hwalk (.short 0x119E) .tc16 accepting ()).2.1 (by decide +kernel)).2

end Chart

end TriCore
