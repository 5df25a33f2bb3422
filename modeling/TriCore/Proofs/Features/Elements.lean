import TriCore.Features.Text
import TriCore.Proofs.Attempts
import TriCore.Proofs.Text.Numerals
import TriCore.Proofs.Word.Gather

/-!
# Which texts are feature sets

A text denotes a feature set by its elements, names or numbers between bars. The set has exactly the
bits that some element has. So it does not matter in which order the elements stand or how often,
and two texts with the same elements denote the same set. The written form of a set is such a text:
the names are there whose bits the set has, and the number has the bits that are left, so together
they have every bit of the set and no other.

## Main definitions

* `Features.Has`, `Features.IsUnion` : the bits of a set, and the union of several sets.
* `Features.Element`, `Features.Lists` : the sets that an element and a whole text denote.

## Main results

* `Features.ofElement?_eq_some_iff`, `Features.ofText?_eq_some_iff` : which texts are read, and as
  which sets.
* `Features.ofText?_text` : the written form of a set is read as this set.
-/

namespace TriCore.Features

open Text

variable {set other : Features} {sets : List Features} {text : String} {cs digits : List Char}
  {i : Nat}

/-! ### Bits and unions -/

/-- A set has the bit `i`. -/
def Has (set : Features) (i : Nat) : Prop := set.bits.getLsbD i = true

/-- A set has exactly the bits that some of the sets has. -/
def IsUnion (set : Features) (sets : List Features) : Prop :=
  ∀ i, set.Has i ↔ ∃ s ∈ sets, s.Has i

theorem eq_of_has_iff (h : ∀ i, set.Has i ↔ other.Has i) : set = other := by
  obtain ⟨bits⟩ := set
  obtain ⟨bits'⟩ := other
  have hbits : bits = bits' := BitVec.eq_of_getLsbD_eq fun i _ => Bool.eq_iff_iff.mpr (h i)
  rw [hbits]

/-- Only one set is the union of some sets. -/
theorem IsUnion.unique (h : set.IsUnion sets) (h' : other.IsUnion sets) : set = other :=
  eq_of_has_iff fun i => (h i).trans (h' i).symm

theorem isUnion_foldl (sets : List Features) : (sets.foldl union empty).IsUnion sets := by
  intro i
  have hbits : (sets.foldl union empty).bits = sets.foldl (fun value s => value ||| s.bits) 0 :=
    (List.foldl_hom bits fun _ _ => rfl).symm
  rw [Has, hbits, getLsbD_foldl_or, BitVec.ofNat_eq_ofNat, BitVec.getLsbD_zero, Bool.false_or,
    List.any_eq_true]
  rfl

theorem Contains.has (h : set.Contains other) (hi : other.Has i) : set.Has i := by
  have hbit : (set.bits &&& other.bits).getLsbD i = true := by
    rw [show set.bits &&& other.bits = other.bits from h]
    exact hi
  rw [BitVec.getLsbD_and, Bool.and_eq_true] at hbit
  exact hbit.1

theorem has_diff_iff : (set.diff other).Has i ↔ set.Has i ∧ ¬ other.Has i := by
  rw [Has, diff, BitVec.getLsbD_and, BitVec.getLsbD_not, Bool.and_eq_true, Bool.and_eq_true,
    decide_eq_true_eq, Bool.not_eq_true']
  constructor
  · rintro ⟨hset, -, hother⟩
    exact ⟨hset, Bool.eq_false_iff.mp hother⟩
  · rintro ⟨hset, hother⟩
    exact ⟨hset, BitVec.lt_of_getLsbD hset, Bool.eq_false_iff.mpr hother⟩

/-- What is left of a set has the bits that none of the sets taken away has. -/
theorem has_foldl_diff_iff {revisions : List (String × Features)} :
    (revisions.foldl (fun rest revision => rest.diff revision.2) set).Has i ↔
      set.Has i ∧ ∀ revision ∈ revisions, ¬ revision.2.Has i := by
  induction revisions generalizing set with
  | nil => simp
  | cons revision revisions ih =>
    rw [List.foldl_cons, ih, has_diff_iff, List.forall_mem_cons, and_assoc]

/-! ### Elements -/

/-- An element denotes a set: it is a name, or a number of thirty-two bits in hexadecimal behind its
mark. -/
inductive Element : List Char → Features → Prop
  | name {name : String} {set : Features} (h : (name, set) ∈ named) : Element name.toList set
  | number {digits : List Char} {n : Nat} (hdigits : IsNumeral 16 digits n)
    (hn : n < UInt32.size) : Element ('0' :: 'x' :: digits) ⟨BitVec.ofNat 32 n⟩

theorem ofElement?_of_mem_named :
    ∀ revision ∈ named, ofElement? revision.1.toList = some revision.2 := by
  decide

theorem ofElement?_number : ofElement? ('0' :: 'x' :: digits) =
    (readNumeral 16 UInt32.size digits).toOption.map fun n => ⟨BitVec.ofNat 32 n⟩ := rfl

theorem ofElement?_eq_some_iff : ofElement? cs = some set ↔ Element cs set := by
  have hread {digits : List Char} {n : Nat} :
      (readNumeral 16 UInt32.size digits).toOption = some n ↔
        IsNumeral 16 digits n ∧ n < UInt32.size :=
    toOption_readNumeral_eq_some_iff (by omega) (by omega) (by decide)
  constructor
  · intro h
    unfold ofElement? at h
    split at h
    case h_1 digits =>
      obtain ⟨n, hn, rfl⟩ := Option.map_eq_some_iff.mp h
      obtain ⟨hdigits, hlt⟩ := hread.mp hn
      exact .number hdigits hlt
    case h_2 =>
      obtain ⟨before, after, hnamed, -⟩ := List.lookup_eq_some_iff.mp h
      have hmem : (String.ofList cs, set) ∈ named := by
        rw [hnamed]
        exact List.mem_append_cons_self
      have helement := Element.name hmem
      rwa [String.toList_ofList] at helement
  · rintro (hmem | ⟨hdigits, hn⟩)
    · exact ofElement?_of_mem_named _ hmem
    · rw [ofElement?_number, hread.mpr ⟨hdigits, hn⟩]
      rfl

theorem isWord_of_mem_named :
    ∀ revision ∈ named, IsWord revision.1.toList ∧ revision.1.toList ≠ [] := by
  decide

theorem Element.ne_nil (h : Element cs set) : cs ≠ [] := by
  rcases h with hmem | -
  · exact (isWord_of_mem_named _ hmem).2
  · exact List.cons_ne_nil _ _

theorem Element.solid (h : Element cs set) : Solid cs := by
  rcases h with hmem | ⟨hdigits, -⟩
  · exact fun c hc => isBlank_of_digitValue? ((isWord_of_mem_named _ hmem).1 c hc)
  · have hsolid := hdigits.solid (by omega)
    exact List.forall_mem_cons.mpr ⟨rfl, List.forall_mem_cons.mpr ⟨rfl, hsolid⟩⟩

theorem Element.bar_not_mem (h : Element cs set) : '|' ∉ cs := by
  rcases h with hmem | @⟨digits, n, hdigits, -⟩
  · exact (isWord_of_mem_named _ hmem).1.not_mem rfl
  · have hfree : '|' ∉ digits := fun hbar => by
      rcases hdigits.forall_mem (by omega) '|' hbar with hsign | hdigit
      · cases hsign
      · cases hdigit
    simp [hfree]

/-! ### Texts -/

/-- A part of a text denotes the set that an element does with blanks around it. -/
def Part (part : List Char) (set : Features) : Prop := ∃ cs, Padded cs part ∧ Element cs set

/-- A text lists sets: it is blank and lists none, or it consists of elements between bars, with any
blanks around them. -/
inductive Lists : List Char → List Features → Prop
  | blank {cs : List Char} (h : ∀ c ∈ cs, isBlank c) : Lists cs []
  | bars {parts : List (List Char)} {sets : List Features} (hne : parts ≠ [])
    (h : List.Forall₂ Part parts sets) : Lists (['|'].intercalate parts) sets

theorem part_iff {part : List Char} : Part part set ↔ Element (trim part) set :=
  exists_padded_iff fun _ => Element.solid

theorem Part.bar_not_mem {part : List Char} (h : Part part set) : '|' ∉ part := by
  obtain ⟨cs, hpadded, helement⟩ := h
  exact hpadded.not_mem rfl helement.bar_not_mem

theorem forall₂_pieces_iff : List.Forall₂ Element (pieces '|' cs) sets ↔
    ∃ parts, parts ≠ [] ∧ List.Forall₂ Part parts sets ∧ cs = ['|'].intercalate parts := by
  constructor
  · intro h
    rw [pieces, splitOn_eq, List.forall₂_map_left_iff] at h
    exact ⟨cs.splitOn '|', List.splitOn_ne_nil _ _, h.imp fun _ _ => part_iff.mpr,
      (List.intercalate_splitOn _).symm⟩
  · rintro ⟨parts, hne, hparts, rfl⟩
    have hfree : ∀ part ∈ parts, '|' ∉ part :=
      ((List.forall₂_and_left _ _).mp (hparts.imp fun _ _ h => ⟨h.bar_not_mem, h⟩)).1
    rw [pieces, splitOn_eq, List.splitOn_intercalate _ hfree hne, List.forall₂_map_left_iff]
    exact hparts.imp fun _ _ => part_iff.mp

/-- A text lists sets exactly if it is blank and lists none, or its pieces denote them. -/
theorem lists_iff : Lists cs sets ↔
    ((∀ c ∈ cs, isBlank c) ∧ sets = []) ∨ List.Forall₂ Element (pieces '|' cs) sets := by
  rw [forall₂_pieces_iff]
  constructor
  · rintro (hblank | ⟨hne, hparts⟩)
    · exact .inl ⟨hblank, rfl⟩
    · exact .inr ⟨_, hne, hparts, rfl⟩
  · rintro (⟨hblank, rfl⟩ | ⟨parts, hne, hparts, rfl⟩)
    · exact .blank hblank
    · exact .bars hne hparts

/-- The only piece of a blank text is no element. -/
theorem not_blank_of_forall₂_pieces (h : List.Forall₂ Element (pieces '|' cs) sets) :
    ¬ ∀ c ∈ cs, isBlank c := by
  intro hblank
  have hbar : '|' ∉ cs := fun hmem => absurd (hblank '|' hmem) (by decide)
  rw [pieces_of_not_mem hbar, trim_eq_nil_iff.mpr hblank] at h
  obtain ⟨_, _, helement, -, -⟩ := List.forall₂_cons_left_iff.mp h
  exact helement.ne_nil rfl

theorem ofText?_of_blank (h : ∀ c ∈ text.toList, isBlank c) : ofText? text = some empty := by
  rw [ofText?, trim_eq_nil_iff.mpr h]
  rfl

theorem ofText?_of_not_blank (h : ¬ ∀ c ∈ text.toList, isBlank c) : ofText? text =
    ((pieces '|' text.toList).mapM ofElement?).map fun sets => sets.foldl union empty := by
  rw [ofText?, if_neg (by rwa [List.isEmpty_iff, trim_eq_nil_iff]), pieces]

theorem mapM_ofElement?_eq_some_iff {texts : List (List Char)} :
    texts.mapM ofElement? = some sets ↔ List.Forall₂ Element texts sets := by
  rw [mapM_eq_some_iff_forall₂]
  simp only [ofElement?_eq_some_iff]

/-- A text that lists sets is read as their union. -/
theorem ofText?_of_lists (h : Lists text.toList sets) :
    ofText? text = some (sets.foldl union empty) := by
  rcases lists_iff.mp h with ⟨hblank, rfl⟩ | hpieces
  · exact ofText?_of_blank hblank
  · rw [ofText?_of_not_blank (not_blank_of_forall₂_pieces hpieces),
      mapM_ofElement?_eq_some_iff.mpr hpieces]
    rfl

/-- A text is read as a set exactly if it lists sets and the set has the bits that these have. -/
theorem ofText?_eq_some_iff :
    ofText? text = some set ↔ ∃ sets, Lists text.toList sets ∧ set.IsUnion sets := by
  constructor
  · intro h
    by_cases hblank : ∀ c ∈ text.toList, isBlank c
    · rw [ofText?_of_blank hblank] at h
      obtain rfl := Option.some.inj h
      exact ⟨[], .blank hblank, isUnion_foldl []⟩
    · rw [ofText?_of_not_blank hblank] at h
      obtain ⟨sets, hsets, rfl⟩ := Option.map_eq_some_iff.mp h
      exact ⟨sets, lists_iff.mpr (.inr (mapM_ofElement?_eq_some_iff.mp hsets)),
        isUnion_foldl sets⟩
  · rintro ⟨sets, hlists, hunion⟩
    rw [ofText?_of_lists hlists, hunion.unique (isUnion_foldl sets)]

/-! ### The written form -/

/-- The named revisions in a set. -/
def present (set : Features) : List (String × Features) :=
  named.filter fun revision => set.Contains revision.2

/-- What is left of a set without the named revisions in it. -/
def left (set : Features) : Features :=
  set.present.foldl (fun rest revision => rest.diff revision.2) set

/-- What is left of a set, if there is anything. -/
def leftover (set : Features) : List Features := if set.left.bits = 0 then [] else [set.left]

/-- The sets that the elements of the written form denote. -/
def listed (set : Features) : List Features := set.present.map Prod.snd ++ set.leftover

theorem elements_eq (set : Features) : set.elements =
    set.present.map Prod.fst ++ set.leftover.map fun s => hex s.bits.toNat := by
  rw [leftover]
  split_ifs with hzero
  · exact congrArg (_ ++ ·) (if_pos hzero)
  · exact congrArg (_ ++ ·) (if_neg hzero)

/-- The named revisions and what is left have the bits of the set. -/
theorem has_iff_present_or_left :
    set.Has i ↔ (∃ revision ∈ set.present, revision.2.Has i) ∨ set.left.Has i := by
  rw [left, has_foldl_diff_iff]
  constructor
  · intro hi
    -- Only the bits of the named revisions in the set are taken away from it.
    by_cases hnamed : ∃ revision ∈ set.present, revision.2.Has i
    · exact .inl hnamed
    · exact .inr ⟨hi, fun revision hmem hhas => hnamed ⟨revision, hmem, hhas⟩⟩
  · rintro (⟨revision, hmem, hhas⟩ | ⟨hi, -⟩)
    · exact Contains.has (of_decide_eq_true (List.mem_filter.mp hmem).2) hhas
    · exact hi

theorem has_left_iff : set.left.Has i ↔ ∃ s ∈ set.leftover, s.Has i := by
  rw [leftover]
  split_ifs with hzero
  · simp [Has, hzero]
  · simp

theorem isUnion_listed (set : Features) : set.IsUnion set.listed := by
  intro i
  rw [has_iff_present_or_left, has_left_iff]
  simp only [listed, List.mem_append, or_and_right, exists_or, List.mem_map,
    exists_exists_and_eq_and]

theorem element_hex (set : Features) : Element (hex set.bits.toNat).toList set := by
  have helement := Element.number (isNumeral_hexDigits set.bits.toNat) set.bits.isLt
  rwa [BitVec.ofNat_toNat, BitVec.setWidth_eq, ← toList_hex] at helement

theorem forall₂_elements (set : Features) :
    List.Forall₂ Element (set.elements.map String.toList) set.listed := by
  rw [elements_eq, List.map_append, listed, List.map_map, List.map_map]
  refine List.rel_append ?_ ?_
  · rw [List.forall₂_map_left_iff, List.forall₂_map_right_iff, List.forall₂_same]
    exact fun revision hmem => .name (List.mem_filter.mp hmem).1
  · rw [List.forall₂_map_left_iff, List.forall₂_same]
    exact fun s _ => element_hex s

/-- The written form of a set is read as this set. -/
theorem ofText?_text (set : Features) : ofText? set.text = some set := by
  have helements := set.forall₂_elements
  refine ofText?_eq_some_iff.mpr ⟨set.listed, lists_iff.mpr ?_, set.isUnion_listed⟩
  rw [text, String.toList_intercalate]
  -- Without elements the written form is blank, and its only piece is no element.
  by_cases hempty : set.elements.map String.toList = []
  · rw [hempty] at helements ⊢
    exact .inl ⟨fun _ hc => absurd hc List.not_mem_nil, List.forall₂_nil_left_iff.mp helements⟩
  · have hsolid : ∀ cs ∈ set.elements.map String.toList, Solid cs ∧ '|' ∉ cs :=
      ((List.forall₂_and_left _ _).mp
        (helements.imp fun _ _ h => ⟨⟨h.solid, h.bar_not_mem⟩, h⟩)).1
    refine .inr ?_
    rwa [show " | ".toList = [' ', '|', ' '] from rfl, pieces_intercalate rfl hempty hsolid]

end TriCore.Features
