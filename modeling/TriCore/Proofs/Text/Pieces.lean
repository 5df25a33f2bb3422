import Mathlib.Data.List.TakeWhile
import TriCore.Text.Blank

/-!
# Pieces of a text

Blanks around a text do not count, and a text with separators in it is read piece by piece, without
the blanks around each piece. Where no character of a piece is blank, the piece is found again,
however many blanks are put around it. Every text consists of what is left of it and the blanks
around that.

## Main definitions

* `Text.Solid` : characters of which none is blank.
* `Text.Padded` : characters with blanks around them.
* `Text.pieces` : the pieces between separators, without the blanks around them.

## Main results

* `Text.trim_eq_of_padded`, `Text.padded_trim` : what is left without the blanks.
* `Text.exists_padded_iff` : a property of what is left is one of what has blanks around it.
* `Text.pieces_intercalate` : pieces are found again.
-/

namespace TriCore.Text

variable {sep c : Char} {cs padded front back : List Char} {parts : List (List Char)}

/-! ### Blanks around a text -/

/-- No character is blank. -/
def Solid (cs : List Char) : Prop := ∀ c ∈ cs, isBlank c = false

/-- Some characters with blanks around them. -/
def Padded (cs padded : List Char) : Prop :=
  ∃ front back, padded = front ++ (cs ++ back) ∧ (∀ c ∈ front, isBlank c) ∧ ∀ c ∈ back, isBlank c

theorem Padded.self (cs : List Char) : Padded cs cs :=
  ⟨[], [], by rw [List.nil_append, List.append_nil], fun _ hc => absurd hc List.not_mem_nil,
    fun _ hc => absurd hc List.not_mem_nil⟩

theorem trimEnd_append_blanks (hback : ∀ c ∈ back, isBlank c) (cs : List Char) :
    trimEnd (cs ++ back) = trimEnd cs := by
  have hreverse : ∀ c ∈ back.reverse, isBlank c := fun c hc => hback c (List.mem_reverse.mp hc)
  rw [trimEnd, List.reverse_append, List.dropWhile_append_of_pos hreverse, ← trimEnd]

theorem dropWhile_isBlank_of_solid (hcs : Solid cs) : cs.dropWhile isBlank = cs := by
  rcases cs with - | ⟨c, cs⟩
  · rfl
  · exact List.dropWhile_cons_of_neg (by rw [hcs c List.mem_cons_self]; decide)

theorem trimEnd_of_solid (hcs : Solid cs) : trimEnd cs = cs := by
  have hreverse : Solid cs.reverse := fun c hc => hcs c (List.mem_reverse.mp hc)
  rw [trimEnd, dropWhile_isBlank_of_solid hreverse, List.reverse_reverse]

theorem trim_of_solid (hcs : Solid cs) : trim cs = cs := by
  rw [trim, dropWhile_isBlank_of_solid hcs, trimEnd_of_solid hcs]

theorem trim_append_blanks (hback : ∀ c ∈ back, isBlank c) (cs : List Char) :
    trim (cs ++ back) = trim cs := by
  rw [trim, trim, List.dropWhile_append]
  split_ifs with hcs
  · rw [List.isEmpty_iff.mp hcs, List.dropWhile_eq_nil_iff.mpr hback]
  · exact trimEnd_append_blanks hback _

theorem trim_blanks_append (hfront : ∀ c ∈ front, isBlank c) (cs : List Char) :
    trim (front ++ cs) = trim cs := by
  rw [trim, List.dropWhile_append_of_pos hfront, ← trim]

/-- Blanks around characters that are not blank do not count. -/
theorem trim_eq_of_padded (h : Padded cs padded) (hcs : Solid cs) : trim padded = cs := by
  obtain ⟨front, back, rfl, hfront, hback⟩ := h
  rw [trim_blanks_append hfront, trim_append_blanks hback, trim_of_solid hcs]

/-- Every text consists of what is left of it without the blanks around, and of these blanks. -/
theorem padded_trim (cs : List Char) : Padded (trim cs) cs := by
  have htail : trim cs ++ ((cs.dropWhile isBlank).reverse.takeWhile isBlank).reverse =
      cs.dropWhile isBlank := by
    rw [trim, trimEnd, ← List.reverse_append, List.takeWhile_append_dropWhile, List.reverse_reverse]
  refine ⟨cs.takeWhile isBlank, ((cs.dropWhile isBlank).reverse.takeWhile isBlank).reverse, ?_,
    fun c hc => List.mem_takeWhile_imp hc,
    fun c hc => List.mem_takeWhile_imp (List.mem_reverse.mp hc)⟩
  rw [htail, List.takeWhile_append_dropWhile]

/-- Where a property is only of characters that are not blank, what has blanks around it is seen
without them. -/
theorem exists_padded_iff {P : List Char → Prop} (hsolid : ∀ cs, P cs → Solid cs) :
    (∃ cs, Padded cs padded ∧ P cs) ↔ P (trim padded) := by
  constructor
  · rintro ⟨cs, hpadded, hcs⟩
    rwa [trim_eq_of_padded hpadded (hsolid cs hcs)]
  · exact fun hcs => ⟨_, padded_trim padded, hcs⟩

theorem trim_eq_nil_iff : trim cs = [] ↔ ∀ c ∈ cs, isBlank c := by
  constructor
  · intro h
    obtain ⟨front, back, hcs, hfront, hback⟩ := padded_trim cs
    rw [h, List.nil_append] at hcs
    rw [hcs]
    exact List.forall_mem_append.mpr ⟨hfront, hback⟩
  · intro h
    have hpadded : Padded [] cs :=
      ⟨cs, [], (List.append_nil cs).symm, h, fun _ hc => absurd hc List.not_mem_nil⟩
    exact trim_eq_of_padded hpadded fun _ hc => absurd hc List.not_mem_nil

/-- Characters that are not blank do not have another character in the blanks around them. -/
theorem Padded.not_mem (h : Padded cs padded) (hsep : isBlank sep = false) (hcs : sep ∉ cs) :
    sep ∉ padded := by
  obtain ⟨front, back, rfl, hfront, hback⟩ := h
  have hblank {blanks : List Char} (hblanks : ∀ c ∈ blanks, isBlank c) : sep ∉ blanks := by
    intro hmem
    rw [hblanks sep hmem] at hsep
    cases hsep
  rw [List.mem_append, List.mem_append]
  rintro (hmem | hmem | hmem)
  · exact hblank hfront hmem
  · exact hcs hmem
  · exact hblank hback hmem

/-! ### Pieces between separators -/

/-- The parts of a text between separators are those of the standard library. -/
theorem splitOn_eq (sep : Char) (cs : List Char) : splitOn sep cs = cs.splitOn sep := by
  induction cs with
  | nil => rfl
  | cons c cs ih =>
    rw [splitOn, List.splitOn_cons_eq_if_modifyHead, ih]
    by_cases hc : c = sep
    · rw [if_pos hc, if_pos (beq_iff_eq.mpr hc)]
    · rw [if_neg hc, if_neg (by rwa [beq_iff_eq])]
      rcases hparts : cs.splitOn sep with - | ⟨part, parts⟩
      · exact absurd hparts (List.splitOn_ne_nil sep cs)
      · rfl

/-- The pieces of a text between separators, each without the blanks around it. -/
def pieces (sep : Char) (cs : List Char) : List (List Char) := (splitOn sep cs).map trim

theorem pieces_of_not_mem (h : sep ∉ cs) : pieces sep cs = [trim cs] := by
  rw [pieces, splitOn_eq, List.splitOn_eq_singleton h, List.map_singleton]

theorem pieces_append (h : sep ∉ cs) (rest : List Char) :
    pieces sep (cs ++ sep :: rest) = trim cs :: pieces sep rest := by
  rw [pieces, splitOn_eq, List.splitOn_append_cons_self, List.splitOn_eq_singleton h, pieces,
    splitOn_eq]
  rfl

/-- A blank before a text does not count. -/
theorem pieces_cons_blank (hc : isBlank c) (hsep : isBlank sep = false) (cs : List Char) :
    pieces sep (c :: cs) = pieces sep cs := by
  have hne : c ≠ sep := by
    rintro rfl
    rw [hc] at hsep
    cases hsep
  have hblank : ∀ d ∈ [c], isBlank d := fun d hd => List.mem_singleton.mp hd ▸ hc
  rw [pieces, pieces, splitOn_eq, splitOn_eq, List.splitOn_cons_eq_if_modifyHead,
    if_neg (by rwa [beq_iff_eq])]
  rcases hparts : cs.splitOn sep with - | ⟨part, parts⟩
  · exact absurd hparts (List.splitOn_ne_nil sep cs)
  · have hpart : trim (c :: part) = trim part := trim_blanks_append hblank part
    rw [List.modifyHead_cons, List.map_cons, List.map_cons, hpart]

/-- Pieces with separators and blanks between them are found again. -/
theorem pieces_intercalate (hsep : isBlank sep = false) (hne : parts ≠ [])
    (hparts : ∀ part ∈ parts, Solid part ∧ sep ∉ part) :
    pieces sep ([' ', sep, ' '].intercalate parts) = parts := by
  have hblank : isBlank ' ' = true := rfl
  induction parts with
  | nil => exact absurd rfl hne
  | cons part parts ih =>
    obtain ⟨⟨hsolid, hfree⟩, hrest⟩ := List.forall_mem_cons.mp hparts
    rcases parts with - | ⟨next, parts⟩
    · rw [List.intercalate_singleton, pieces_of_not_mem hfree, trim_of_solid hsolid]
    · have hpadded : Padded part (part ++ [' ']) :=
        ⟨[], [' '], rfl, fun _ hc => absurd hc List.not_mem_nil,
          fun c hc => List.mem_singleton.mp hc ▸ hblank⟩
      have htext : [' ', sep, ' '].intercalate (part :: next :: parts) =
          (part ++ [' ']) ++ sep :: ' ' :: [' ', sep, ' '].intercalate (next :: parts) := by
        rw [List.intercalate_cons_cons]
        simp
      -- One blank belongs to the part before the separator, the other one to what is behind it.
      rw [htext, pieces_append (hpadded.not_mem hsep hfree), trim_eq_of_padded hpadded hsolid,
        pieces_cons_blank hblank hsep, ih (List.cons_ne_nil _ _) hrest]

end TriCore.Text
