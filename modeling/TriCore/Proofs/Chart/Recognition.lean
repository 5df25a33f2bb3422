import TriCore.Chart.Pattern
import TriCore.Proofs.Word.Gather

/-!
# The tables recognise the patterns of the chart

A walk over the architecture's table of a width offers one candidate: that of the first pattern of
the chart that recognises the word. This rests on the values of the primary opcode being distinct:
an entry whose secondary opcode is not found gives up, and no later entry could have recognised the
word.

## Main definitions

* `Chart.Pattern.Matches` : a word has the fields of a pattern.
* `Chart.Entry.primaries` : the values of the primary opcode in an entry.

## Main results

* `Chart.followArms_entries` : the entries of a chart are followed as their patterns say.
* `Chart.walk_ofWidth` : a walk over a table offers the candidate of the first pattern that
  recognises the word.
-/

namespace TriCore.Chart

open Decision

variable {σ α : Type}

/-! ### Patterns -/

/-- A word has the values of the fields of a pattern. -/
def Pattern.Matches (p : Pattern) (w : Word) : Prop :=
  ∀ test ∈ p.fields, test.1.extract w.bits = test.2

theorem Pattern.Recognises.matches {p : Pattern} {w : Word} {features : Features}
    (h : p.Recognises w features) : p.Matches w := h.1

/-- The pattern that is found for a word recognises it. -/
theorem recognises_of_find?_eq_some {ps : List Pattern} {w : Word} {features : Features}
    {p : Pattern} (h : ps.find? (·.Recognises w features) = some p) :
    p ∈ ps ∧ p.Recognises w features :=
  ⟨List.mem_of_find?_eq_some h, by simpa only [decide_eq_true_eq] using List.find?_some h⟩

theorem find?_recognises_eq_none {ps : List Pattern} {w : Word} {features : Features}
    (h : ∀ p ∈ ps, ¬p.Recognises w features) : ps.find? (·.Recognises w features) = none :=
  List.find?_eq_none.mpr fun p hp hrecognises => h p hp (of_decide_eq_true hrecognises)

theorem contains_empty (features : Features) : features.Contains .empty := by
  simp [Features.Contains, Features.empty]

namespace Entry

/-- The values of the primary opcode in an entry. -/
def primaries (e : Entry) : List (BitVec 32) := e.arms.map Prod.fst

/-- The field of the secondary opcode lies inside a word, and its values are distinct. -/
def WellFormed : Entry → Prop
  | direct _ _ | gated .. => True
  | secondary _ field _ opcodes => field.InRange ∧ (opcodes.map Prod.fst).Nodup

instance : (e : Entry) → Decidable e.WellFormed
  | direct .. | gated .. => .isTrue trivial
  | secondary .. => inferInstanceAs (Decidable (_ ∧ _))

theorem primaries_direct (format : Format) (opcodes : List (BitVec 32 × Opcode)) :
    (direct format opcodes).primaries = opcodes.map Prod.fst := by
  simp [primaries, arms, bindings, Function.comp_def]

/-- Every pattern of an entry tests the primary opcode for one of the values of the entry. -/
theorem exists_primary_of_mem {e : Entry} {p : Pattern} (hp : p ∈ e.patterns) :
    ∃ primary ∈ e.primaries, (primaryField, primary) ∈ p.fields := by
  cases e with
  | direct format opcodes =>
    obtain ⟨entry, hentry, rfl⟩ := List.mem_map.mp hp
    rw [primaries_direct]
    exact ⟨entry.1, List.mem_map_of_mem hentry, List.mem_cons_self⟩
  | gated features primary format opcode =>
    rw [List.mem_singleton.mp hp]
    exact ⟨primary, List.mem_cons_self, List.mem_cons_self⟩
  | secondary primary field format opcodes =>
    obtain ⟨entry, hentry, rfl⟩ := List.mem_map.mp hp
    exact ⟨primary, List.mem_cons_self, List.mem_cons_self⟩

/-- A word that has the fields of a pattern of an entry has one of its primary opcodes. -/
theorem primary_mem_primaries {e : Entry} {p : Pattern} (hp : p ∈ e.patterns) {w : Word}
    (h : p.Matches w) : primaryField.extract w.bits ∈ e.primaries := by
  obtain ⟨primary, hprimary, htest⟩ := exists_primary_of_mem hp
  exact h _ htest ▸ hprimary

theorem primary_mem_of_matches {entries : List Entry} {p : Pattern}
    (hp : p ∈ entries.flatMap patterns) {w : Word} (h : p.Matches w) :
    primaryField.extract w.bits ∈ entries.flatMap primaries := by
  obtain ⟨e, he, hpe⟩ := List.mem_flatMap.mp hp
  exact List.mem_flatMap.mpr ⟨e, he, primary_mem_primaries hpe h⟩

end Entry

/-! ### Walking the entries -/

section Walk

variable (w : Word) (features : Features) (offer : Offer σ α)

/-- The offer of the candidate of a pattern, if there is one. -/
def answerTo : Option Pattern → σ → Except Halt α × σ
  | some p, s => offer .final p.candidate s
  | none, s => Plan.noMatch w s

theorem followArms_bindings (value : BitVec 32) (format : Format)
    (opcodes : List (BitVec 32 × Opcode)) (arms : List (BitVec 32 × Plan)) (s : σ) :
    Plan.followArms w features offer value (bindings format opcodes ++ arms) s =
      match opcodes.find? fun entry => value = entry.1 with
      | some entry => offer .final ⟨entry.2, format⟩ s
      | none => Plan.followArms w features offer value arms s := by
  induction opcodes with
  | nil => rfl
  | cons entry opcodes ih =>
    simp only [bindings, List.map_cons, List.cons_append, Plan.followArms, List.find?_cons]
    by_cases h : value = entry.1
    · simp only [h, if_true, decide_true]
      rfl
    · simp only [h, if_false, decide_false]
      exact ih

/-- The pattern of an entry whose primary opcode is not shared is found by its values. -/
theorem find?_patterns_direct (format : Format) (opcodes : List (BitVec 32 × Opcode)) :
    (Entry.direct format opcodes).patterns.find? (·.Recognises w features) =
      (opcodes.find? fun entry => primaryField.extract w.bits = entry.1).map fun entry =>
        ⟨[(primaryField, entry.1)], .empty, ⟨entry.2, format⟩⟩ := by
  rw [Entry.patterns, List.find?_map]
  congr 2
  funext entry
  simp [Pattern.Recognises, contains_empty]

theorem find?_patterns_secondary (primary : BitVec 32) (field : Field) (format : Format)
    (opcodes : List (BitVec 32 × Opcode)) (h : primaryField.extract w.bits = primary) :
    (Entry.secondary primary field format opcodes).patterns.find? (·.Recognises w features) =
      (opcodes.find? fun entry => field.extract w.bits = entry.1).map fun entry =>
        ⟨[(primaryField, primary), (field, entry.1)], .empty, ⟨entry.2, format⟩⟩ := by
  rw [Entry.patterns, List.find?_map]
  congr 2
  funext entry
  simp [Pattern.Recognises, contains_empty, h]

/-- The entries are followed as their patterns say: the first that recognises the word is offered.
An entry with a secondary opcode gives up if it is not found, which is right since no later entry
has its primary opcode. -/
theorem followArms_entries (entries : List Entry)
    (hdistinct : (entries.flatMap Entry.primaries).Nodup)
    (hwf : ∀ e ∈ entries, e.WellFormed) (s : σ) :
    Plan.followArms w features offer (primaryField.extract w.bits) (entries.flatMap Entry.arms) s =
      answerTo w offer ((entries.flatMap Entry.patterns).find? (·.Recognises w features)) s := by
  induction entries with
  | nil => rfl
  | cons e entries ih =>
    rw [List.flatMap_cons] at hdistinct
    obtain ⟨-, hrest, hapart⟩ := List.nodup_append.mp hdistinct
    have tail := ih hrest fun e' he' => hwf e' (List.mem_cons_of_mem _ he')
    rw [List.flatMap_cons, List.flatMap_cons, List.find?_append]
    cases e with
    | direct format opcodes =>
      rw [Entry.arms, followArms_bindings, find?_patterns_direct]
      cases opcodes.find? fun entry => primaryField.extract w.bits = entry.1 with
      | none => exact tail
      | some entry => rfl
    | gated required primary format opcode =>
      simp only [Entry.arms, Entry.patterns, List.singleton_append, Plan.followArms, Plan.follow,
        List.find?_singleton, Pattern.Recognises, List.forall_mem_singleton, Bool.decide_and,
        Bool.and_eq_true, decide_eq_true_eq]
      by_cases hprimary : primaryField.extract w.bits = primary
      · by_cases hfeatures : features.Contains required
        · simp only [hprimary, hfeatures, and_self, if_true, Option.some_or]
          rfl
        · simp only [hprimary, hfeatures, and_false, if_true, if_false, Option.none_or]
          exact hprimary ▸ tail
      · simp only [hprimary, false_and, if_false, Option.none_or]
        exact tail
    | secondary primary field format opcodes =>
      have wf := hwf _ List.mem_cons_self
      by_cases hprimary : primaryField.extract w.bits = primary
      · have hnone : (entries.flatMap Entry.patterns).find? (·.Recognises w features) = none := by
          refine List.find?_eq_none.mpr fun p hp hrecognises => ?_
          have hmem := Entry.primary_mem_of_matches hp (of_decide_eq_true hrecognises).matches
          exact hapart primary List.mem_cons_self _ hmem hprimary.symm
        rw [find?_patterns_secondary w features primary field format opcodes hprimary, hnone,
          Option.or_none]
        simp only [Entry.arms, List.singleton_append, Plan.followArms, hprimary, if_true,
          Plan.follow, Word.read_of_inRange w wf.1]
        rw [← List.append_nil (bindings format opcodes), followArms_bindings]
        cases opcodes.find? fun entry => field.extract w.bits = entry.1 <;> rfl
      · have hnone : (Entry.secondary primary field format opcodes).patterns.find?
            (·.Recognises w features) = none := by
          refine List.find?_eq_none.mpr fun p hp hrecognises => ?_
          obtain ⟨entry, -, rfl⟩ := List.mem_map.mp hp
          exact hprimary ((of_decide_eq_true hrecognises).matches _ List.mem_cons_self)
        rw [hnone, Option.none_or]
        simp only [Entry.arms, List.singleton_append, Plan.followArms, hprimary, if_false]
        exact tail

/-- Following the selection by the primary opcode, with anything behind it. -/
theorem follow_byPrimary (entries : List Entry)
    (hdistinct : (entries.flatMap Entry.primaries).Nodup)
    (hwf : ∀ e ∈ entries, e.WellFormed) (rest : Plan.Rest σ α) (s : σ) :
    (byPrimary entries).follow w features offer rest s =
      answerTo w offer ((entries.flatMap Entry.patterns).find? (·.Recognises w features)) s := by
  have hfield : primaryField.InRange := by decide
  rw [byPrimary, Plan.follow, Word.read_of_inRange w hfield]
  exact followArms_entries w features offer entries hdistinct hwf s

/-! ### Walking the tables -/

theorem nodup_primaries_short : (shortEntries.flatMap Entry.primaries).Nodup := by
  decide +kernel

theorem nodup_primaries_long : (longEntries.flatMap Entry.primaries).Nodup := by
  decide +kernel

theorem wellFormed_short : ∀ e ∈ shortEntries, e.WellFormed := by decide +kernel

theorem wellFormed_long : ∀ e ∈ longEntries, e.WellFormed := by decide +kernel

theorem find?_cons_of_recognises {w : Word} {features : Features} {p : Pattern}
    (h : p.Recognises w features) (ps : List Pattern) :
    (p :: ps).find? (·.Recognises w features) = some p :=
  List.find?_cons_of_pos (decide_eq_true h)

theorem find?_cons_of_not_matches {w : Word} {p : Pattern} (h : ¬p.Matches w)
    (features : Features) (ps : List Pattern) :
    (p :: ps).find? (·.Recognises w features) = ps.find? (·.Recognises w features) :=
  List.find?_cons_of_neg fun hrecognises => h (of_decide_eq_true hrecognises).matches

theorem follow_shortPlan (s : σ) :
    shortPlan.follow w features offer (Plan.noMatch w) s =
      answerTo w offer ((patterns .short).find? (·.Recognises w features)) s := by
  have hfield : (Field.mk 0 6).InRange := by decide
  simp only [shortPlan, Plan.follow, Word.read_of_inRange w hfield]
  by_cases h : (Field.mk 0 6).extract w.bits = 0x10
  · have hfront : (Pattern.mk [(⟨0, 6⟩, 0x10)] .empty ⟨.addscASrrs, .srrs⟩).Recognises w features :=
      ⟨by simpa using h, contains_empty features⟩
    rw [if_pos h, patterns, find?_cons_of_recognises hfront]
    rfl
  · rw [if_neg h, patterns, find?_cons_of_not_matches fun hmatch => h (hmatch _ List.mem_cons_self)]
    exact follow_byPrimary w features offer shortEntries nodup_primaries_short wellFormed_short _ s

/-- A field of one bit is clear or set. -/
theorem extract_bit (offset : Nat) (bits : BitVec 32) :
    (Field.mk offset 1).extract bits = 0 ∨ (Field.mk offset 1).extract bits = 1 := by
  cases h : bits.getLsbD offset with
  | false =>
    refine .inl (Field.extract_eq_of_getLsbD Nat.zero_lt_two fun j hj => ?_)
    obtain rfl : j = 0 := Nat.lt_one_iff.mp hj
    exact h
  | true =>
    refine .inr (Field.extract_eq_of_getLsbD Nat.one_lt_two fun j hj => ?_)
    obtain rfl : j = 0 := Nat.lt_one_iff.mp hj
    exact h

theorem follow_longPlan (s : σ) :
    longPlan.follow w features offer (Plan.noMatch w) s =
      answerTo w offer ((patterns .long).find? (·.Recognises w features)) s := by
  have hfield : (Field.mk 0 7).InRange := by decide
  have hhigh : (Field.mk 31 1).InRange := by decide
  simp only [longPlan, Plan.follow, Word.read_of_inRange w hfield, Word.read_of_inRange w hhigh]
  by_cases h : (Field.mk 0 7).extract w.bits = 0x6F
  · rw [if_pos h, patterns]
    rcases extract_bit 31 w.bits with hbit | hbit
    · have hfront : (Pattern.mk [(⟨0, 7⟩, 0x6F), (⟨31, 1⟩, 0)] .empty
          ⟨.jzTBrn, .brn⟩).Recognises w features :=
        ⟨by simpa using ⟨h, hbit⟩, contains_empty features⟩
      rw [find?_cons_of_recognises hfront, hbit]
      rfl
    · have hclear : ¬(Pattern.mk [(⟨0, 7⟩, 0x6F), (⟨31, 1⟩, 0)] .empty ⟨.jzTBrn, .brn⟩).Matches w :=
        fun hmatch => by simpa [hbit] using hmatch (⟨31, 1⟩, 0) (by simp)
      have hset : (Pattern.mk [(⟨0, 7⟩, 0x6F), (⟨31, 1⟩, 1)] .empty
          ⟨.jnzTBrn, .brn⟩).Recognises w features :=
        ⟨by simpa using ⟨h, hbit⟩, contains_empty features⟩
      rw [find?_cons_of_not_matches hclear, find?_cons_of_recognises hset, hbit]
      rfl
  · rw [if_neg h, patterns,
      find?_cons_of_not_matches fun hmatch => h (hmatch _ List.mem_cons_self),
      find?_cons_of_not_matches fun hmatch => h (hmatch _ List.mem_cons_self)]
    exact follow_byPrimary w features offer longEntries nodup_primaries_long wellFormed_long _ s

/-- A walk over the table of a width offers the candidate of the first pattern of that width that
recognises the word, and nothing else. -/
theorem walk_ofWidth (width : Width) (s : σ) :
    (Table.ofWidth width).walk w features offer s =
      answerTo w offer ((patterns width).find? (·.Recognises w features)) s := by
  cases width with
  | short =>
    have layout := Plan.walk_ops_append w features offer [] 0 shortPlan s
    rw [List.append_nil] at layout
    exact layout.trans (follow_shortPlan w features offer s)
  | long =>
    have layout := Plan.walk_ops_append w features offer [] 0 longPlan s
    rw [List.append_nil] at layout
    exact layout.trans (follow_longPlan w features offer s)

end Walk

end TriCore.Chart
