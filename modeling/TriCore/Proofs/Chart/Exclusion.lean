import Mathlib.Data.List.Nodup
import Mathlib.Data.List.Sort
import TriCore.Proofs.Chart.Recognition
import TriCore.Proofs.Decision.Outcome

/-!
# Patterns exclude one another

No word has the fields of two patterns of its width. Two entries differ in the primary opcode and
two patterns of an entry in the primary or the secondary one; the patterns in front of the entries
test a part of the primary opcode for a value that no entry has there. The pattern that recognises a
word is therefore the only one that does, and the order of the chart does not matter. Conversely
every opcode has one pattern, in the chart of one of the widths, and the tables bind the opcodes to
the formats of their patterns.

## Main definitions

* `Decision.Table.Binds` : the candidates that a table can offer.

## Main results

* `Chart.Entry.eq_of_matches_flatMap` : no word has the fields of two patterns of the entries.
* `Chart.eq_of_matches` : no word has the fields of two patterns of a width.
* `Chart.find?_recognises_eq_some` : a pattern that recognises a word is the first that does.
* `Chart.perm_opcodes`, `Chart.eq_of_opcode_eq` : every opcode has one pattern.
* `Chart.binds_ofWidth_iff` : the tables bind the candidates of the patterns.
-/

namespace TriCore.Chart

/-! ### Patterns of the entries -/

theorem extract_primaryField {f : Field} (h : f.offset + f.width ≤ 8) (bits : BitVec 32) :
    f.extract (primaryField.extract bits) = f.extract bits := by
  refine BitVec.eq_of_getLsbD_eq fun j hj => ?_
  simp only [Field.getLsbD_extract, primaryField]
  grind

/-- The words with the fields of two patterns of one entry are those of one pattern. -/
theorem Entry.eq_of_matches {e : Entry} (hdistinct : e.primaries.Nodup) (hwf : e.WellFormed)
    {p q : Pattern} (hp : p ∈ e.patterns) (hq : q ∈ e.patterns) {w : Word} (hpw : p.Matches w)
    (hqw : q.Matches w) : p = q := by
  cases e with
  | direct format opcodes =>
    obtain ⟨entry, hentry, rfl⟩ := List.mem_map.mp hp
    obtain ⟨entry', hentry', rfl⟩ := List.mem_map.mp hq
    rw [primaries_direct] at hdistinct
    have heq : entry.1 = entry'.1 :=
      (hpw _ List.mem_cons_self).symm.trans (hqw _ List.mem_cons_self)
    rw [List.inj_on_of_nodup_map hdistinct hentry hentry' heq]
  | gated features primary format opcode =>
    exact (List.mem_singleton.mp hp).trans (List.mem_singleton.mp hq).symm
  | secondary primary field format opcodes =>
    obtain ⟨entry, hentry, rfl⟩ := List.mem_map.mp hp
    obtain ⟨entry', hentry', rfl⟩ := List.mem_map.mp hq
    have heq : entry.1 = entry'.1 :=
      (hpw (field, entry.1) (by simp)).symm.trans (hqw (field, entry'.1) (by simp))
    rw [List.inj_on_of_nodup_map hwf.2 hentry hentry' heq]

theorem Entry.eq_of_matches_flatMap {entries : List Entry}
    (hdistinct : (entries.flatMap Entry.primaries).Nodup) (hwf : ∀ e ∈ entries, e.WellFormed)
    {p q : Pattern} (hp : p ∈ entries.flatMap Entry.patterns)
    (hq : q ∈ entries.flatMap Entry.patterns) {w : Word} (hpw : p.Matches w)
    (hqw : q.Matches w) : p = q := by
  induction entries with
  | nil => simp at hp
  | cons e entries ih =>
    rw [List.flatMap_cons] at hdistinct hp hq
    obtain ⟨hhead, hrest, hapart⟩ := List.nodup_append.mp hdistinct
    rcases List.mem_append.mp hp with hp | hp <;> rcases List.mem_append.mp hq with hq | hq
    · exact Entry.eq_of_matches hhead (hwf e List.mem_cons_self) hp hq hpw hqw
    · exact (hapart _ (primary_mem_primaries hp hpw) _ (primary_mem_of_matches hq hqw) rfl).elim
    · exact (hapart _ (primary_mem_primaries hq hqw) _ (primary_mem_of_matches hp hpw) rfl).elim
    · exact ih hrest (fun e' he' => hwf e' (List.mem_cons_of_mem _ he')) hp hq

/-- A pattern that tests a part of the primary opcode for a value that no entry has matches no word
that a pattern of the entries matches. -/
theorem Entry.not_matches_of_part {entries : List Entry} {f : Field} {value : BitVec 32}
    (hpart : f.offset + f.width ≤ 8)
    (hvalue : value ∉ (entries.flatMap Entry.primaries).map f.extract) {p : Pattern}
    (hp : p ∈ entries.flatMap Entry.patterns) {w : Word} (hpw : p.Matches w) :
    f.extract w.bits ≠ value := by
  rintro rfl
  rw [← extract_primaryField hpart] at hvalue
  exact hvalue (List.mem_map_of_mem (Entry.primary_mem_of_matches hp hpw))

/-! ### Patterns of a width -/

theorem eq_of_matches_short {p q : Pattern} (hp : p ∈ patterns .short) (hq : q ∈ patterns .short)
    {w : Word} (hpw : p.Matches w) (hqw : q.Matches w) : p = q := by
  have hpart {r : Pattern} (hr : r ∈ shortEntries.flatMap Entry.patterns) (hrw : r.Matches w) :
      (Field.mk 0 6).extract w.bits ≠ 0x10 :=
    Entry.not_matches_of_part (by decide) (by decide +kernel) hr hrw
  rcases List.mem_cons.mp hp with rfl | hp <;> rcases List.mem_cons.mp hq with rfl | hq
  · rfl
  · exact (hpart hq hqw (hpw _ List.mem_cons_self)).elim
  · exact (hpart hp hpw (hqw _ List.mem_cons_self)).elim
  · exact Entry.eq_of_matches_flatMap nodup_primaries_short wellFormed_short hp hq hpw hqw

theorem eq_of_matches_long {p q : Pattern} (hp : p ∈ patterns .long) (hq : q ∈ patterns .long)
    {w : Word} (hpw : p.Matches w) (hqw : q.Matches w) : p = q := by
  have hpart {r : Pattern} (hr : r ∈ longEntries.flatMap Entry.patterns) (hrw : r.Matches w) :
      (Field.mk 0 7).extract w.bits ≠ 0x6F :=
    Entry.not_matches_of_part (by decide) (by decide +kernel) hr hrw
  -- The two patterns in front differ in bit `31`.
  rcases List.mem_cons.mp hp with rfl | hp <;> rcases List.mem_cons.mp hq with rfl | hq
  · rfl
  · rcases List.mem_cons.mp hq with rfl | hq
    · simpa using (hpw (⟨31, 1⟩, 0) (by simp)).symm.trans (hqw (⟨31, 1⟩, 1) (by simp))
    · exact (hpart hq hqw (hpw _ List.mem_cons_self)).elim
  · rcases List.mem_cons.mp hp with rfl | hp
    · simpa using (hqw (⟨31, 1⟩, 0) (by simp)).symm.trans (hpw (⟨31, 1⟩, 1) (by simp))
    · exact (hpart hp hpw (hqw _ List.mem_cons_self)).elim
  · rcases List.mem_cons.mp hp with rfl | hp <;> rcases List.mem_cons.mp hq with rfl | hq
    · rfl
    · exact (hpart hq hqw (hpw _ List.mem_cons_self)).elim
    · exact (hpart hp hpw (hqw _ List.mem_cons_self)).elim
    · exact Entry.eq_of_matches_flatMap nodup_primaries_long wellFormed_long hp hq hpw hqw

/-- No word has the fields of two patterns of its width. -/
theorem eq_of_matches {width : Width} {p q : Pattern} (hp : p ∈ patterns width)
    (hq : q ∈ patterns width) {w : Word} (hpw : p.Matches w) (hqw : q.Matches w) : p = q := by
  cases width with
  | short => exact eq_of_matches_short hp hq hpw hqw
  | long => exact eq_of_matches_long hp hq hpw hqw

/-- A pattern that recognises a word is found, since no other has its fields. -/
theorem find?_recognises_eq_some {width : Width} {p : Pattern} (hp : p ∈ patterns width)
    {w : Word} {features : Features} (h : p.Recognises w features) :
    (patterns width).find? (·.Recognises w features) = some p := by
  cases hfind : (patterns width).find? (·.Recognises w features) with
  | none => exact absurd (decide_eq_true h) (List.find?_eq_none.mp hfind p hp)
  | some q =>
    obtain ⟨hq, hrecognises⟩ := recognises_of_find?_eq_some hfind
    rw [eq_of_matches hq hp hrecognises.matches h.matches]

/-! ### Opcodes -/

/-- Every opcode has a pattern, and the patterns have no other opcodes. -/
theorem perm_opcodes :
    ((patterns .short ++ patterns .long).map fun p => p.candidate.opcode).Perm Opcode.all := by
  have hsorted : ((patterns .short ++ patterns .long).map fun p => p.candidate.opcode).insertionSort
      (fun a b => a.index ≤ b.index) = Opcode.all := by decide +kernel
  rw [← hsorted]
  exact (List.perm_insertionSort _ _).symm

theorem nodup_all : Opcode.all.Nodup := by
  have hindex : Opcode.all.map Opcode.index = List.range Opcode.all.length := by decide +kernel
  refine List.Nodup.of_map Opcode.index ?_
  rw [hindex]
  exact List.nodup_range

/-- No opcode has two patterns. -/
theorem eq_of_opcode_eq {width width' : Width} {p q : Pattern} (hp : p ∈ patterns width)
    (hq : q ∈ patterns width') (h : p.candidate.opcode = q.candidate.opcode) : p = q := by
  have mem_both {r : Pattern} : ∀ {width : Width}, r ∈ patterns width →
      r ∈ patterns .short ++ patterns .long
    | .short, hr => List.mem_append_left _ hr
    | .long, hr => List.mem_append_right _ hr
  have hnodup := perm_opcodes.nodup_iff.mpr nodup_all
  exact List.inj_on_of_nodup_map hnodup (mem_both hp) (mem_both hq) h

end TriCore.Chart

namespace TriCore

open Decision

/-! ### Candidates of a table -/

/-- The table has an operation that offers the candidate. -/
def Decision.Table.Binds (t : Table) (candidate : Candidate) : Prop :=
  ∃ op ∈ t.ops, op.candidate? = some candidate

theorem Chart.filterMap_candidate? (width : Width) :
    (Table.ofWidth width).ops.filterMap Op.candidate? =
      (patterns width).map Pattern.candidate := by
  cases width <;> decide +kernel

/-- The tables bind the candidates of the patterns. -/
theorem Chart.binds_ofWidth_iff {width : Width} {candidate : Candidate} :
    (Table.ofWidth width).Binds candidate ↔ ∃ p ∈ patterns width, p.candidate = candidate := by
  rw [Table.Binds, ← List.mem_filterMap, Chart.filterMap_candidate?, List.mem_map]

end TriCore
