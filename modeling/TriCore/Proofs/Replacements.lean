import Mathlib.Logic.Function.Basic

/-!
# Values that are replaced

A register file has a bank for each class and a table has a descriptor for each opcode. Both are
made by replacing one value after the other. After any list of replacements the value of a key is
the one that was given last for it, and the value that it had at first if none was given. So
replacements for other keys never matter, and those for different keys may change places.

What is kept may be any state with a value for each key, as long as one replacement changes the
value of its key and no other. Then the values after a list of replacements are known from the
values before (`foldl_eq_replaced`).

## Main definitions

* `InForce` : the value that a key has after a list of replacements.
* `replaced` : the values of all keys after a list of replacements.

## Main results

* `inForce_iff` : every key has exactly one value in force.
* `replaced_filter` : replacements for other keys never matter.
* `replaced_exchange` : replacements for different keys may change places.
-/

namespace TriCore

variable {κ ν σ : Type} {initial other : κ → ν} {before after replacements : List (κ × ν)}
  {key : κ} {value : ν}

/-- The value in force for a key is the one that is given last for it, or the initial one if none is
given. -/
def InForce (initial : κ → ν) (replacements : List (κ × ν)) (key : κ) (value : ν) : Prop :=
  (∃ before after, replacements = before ++ (key, value) :: after ∧ ∀ r ∈ after, r.1 ≠ key) ∨
    (∀ r ∈ replacements, r.1 ≠ key) ∧ value = initial key

variable [DecidableEq κ]

/-- The values of all keys after replacements that are made in order. -/
def replaced (initial : κ → ν) (replacements : List (κ × ν)) : κ → ν :=
  replacements.foldl (fun values r => Function.update values r.1 r.2) initial

theorem replaced_cons (initial : κ → ν) (r : κ × ν) (replacements : List (κ × ν)) :
    replaced initial (r :: replacements) =
      replaced (Function.update initial r.1 r.2) replacements := rfl

theorem replaced_append (initial : κ → ν) (before after : List (κ × ν)) :
    replaced initial (before ++ after) = replaced (replaced initial before) after :=
  List.foldl_append

/-- If one replacement changes the value of its key and no other, the values after a list of them
are known from the values before. -/
theorem foldl_eq_replaced {values : σ → κ → ν} {replace : σ → κ → ν → σ}
    (hreplace : ∀ state key value,
      values (replace state key value) = Function.update (values state) key value)
    (state : σ) (replacements : List (κ × ν)) :
    values (replacements.foldl (fun s r => replace s r.1 r.2) state) =
      replaced (values state) replacements := by
  induction replacements generalizing state with
  | nil => rfl
  | cons r replacements ih => rw [List.foldl_cons, ih, hreplace, replaced_cons]

/-! ### The value in force -/

theorem replaced_of_forall_ne (h : ∀ r ∈ replacements, r.1 ≠ key) :
    replaced initial replacements key = initial key := by
  induction replacements generalizing initial with
  | nil => rfl
  | cons r replacements ih =>
    obtain ⟨hr, hrest⟩ := List.forall_mem_cons.mp h
    rw [replaced_cons, ih hrest, Function.update_of_ne hr.symm]

/-- A value that is given counts until another one is given for its key. -/
theorem replaced_append_cons (h : ∀ r ∈ after, r.1 ≠ key) :
    replaced initial (before ++ (key, value) :: after) key = value := by
  rw [replaced_append, replaced_cons, replaced_of_forall_ne h, Function.update_self]

theorem inForce_replaced (initial : κ → ν) (replacements : List (κ × ν)) (key : κ) :
    InForce initial replacements key (replaced initial replacements key) := by
  induction replacements generalizing initial with
  | nil => exact .inr ⟨fun _ hr => absurd hr List.not_mem_nil, rfl⟩
  | cons r replacements ih =>
    rw [replaced_cons]
    -- The first replacement counts if no later one is for its key.
    rcases ih (Function.update initial r.1 r.2) with ⟨before, after, heq, hafter⟩ | ⟨hrest, hvalue⟩
    · exact .inl ⟨r :: before, after, by rw [List.cons_append, ← heq], hafter⟩
    · by_cases hkey : r.1 = key
      · subst hkey
        rw [Function.update_self] at hvalue
        exact .inl ⟨[], replacements, by rw [hvalue, List.nil_append], hrest⟩
      · rw [Function.update_of_ne (Ne.symm hkey)] at hvalue
        exact .inr ⟨List.forall_mem_cons.mpr ⟨hkey, hrest⟩, hvalue⟩

/-- Every key has exactly one value in force. -/
theorem inForce_iff :
    InForce initial replacements key value ↔ replaced initial replacements key = value := by
  constructor
  · rintro (⟨before, after, rfl, hafter⟩ | ⟨hall, rfl⟩)
    · exact replaced_append_cons hafter
    · exact replaced_of_forall_ne hall
  · rintro rfl
    exact inForce_replaced initial replacements key

/-! ### Replacements that do not matter -/

/-- Of the initial values, only that of the key itself matters. -/
theorem replaced_congr (h : initial key = other key) (replacements : List (κ × ν)) :
    replaced initial replacements key = replaced other replacements key := by
  rcases inForce_replaced initial replacements key with
    ⟨before, after, heq, hafter⟩ | ⟨hall, hvalue⟩
  · generalize replaced initial replacements key = value at heq ⊢
    rw [heq, replaced_append_cons hafter]
  · rw [hvalue, replaced_of_forall_ne hall, h]

/-- Replacements for other keys never matter. -/
theorem replaced_filter (initial : κ → ν) (replacements : List (κ × ν)) (key : κ) :
    replaced initial (replacements.filter fun r => r.1 = key) key =
      replaced initial replacements key := by
  induction replacements generalizing initial with
  | nil => rfl
  | cons r replacements ih =>
    rw [replaced_cons, List.filter_cons]
    by_cases hkey : r.1 = key
    · rw [if_pos (decide_eq_true hkey), replaced_cons, ih]
    · rw [if_neg (by rwa [decide_eq_true_eq]), ih]
      exact replaced_congr (Function.update_of_ne (Ne.symm hkey) _ _).symm replacements

/-- Replacements for different keys may change places. -/
theorem replaced_exchange {r r' : κ × ν} (h : r.1 ≠ r'.1) (initial : κ → ν)
    (before after : List (κ × ν)) :
    replaced initial (before ++ r :: r' :: after) =
      replaced initial (before ++ r' :: r :: after) := by
  simp only [replaced_append, replaced_cons, Function.update_comm h]

end TriCore
