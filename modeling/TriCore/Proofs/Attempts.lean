import Mathlib.Data.List.Forall2

/-!
# Lists of attempts

Attempts that are made one after the other succeed together if each of them does, and otherwise fail
as the first one that fails. What is collected from two lists of attempts, one behind the other, is
collected from the first and then from the second. Attempts that do not say why they fail succeed
together in the same way.

## Main results

* `mapM_eq_ok_iff`, `mapM_eq_ok_iff_forall₂` : when a list of attempts succeeds.
* `mapM_eq_error`, `mapM_eq_error_iff` : when a list of attempts fails, and how.
* `mapM_append_of_eq_ok` : attempts behind attempts that succeed.
* `mapM_eq_some_iff_forall₂` : when a list of attempts succeeds that do not say why they fail.
-/

namespace TriCore

variable {ε α β : Type}

theorem mapM_cons_eq_match (f : α → Except ε β) (x : α) (xs : List α) :
    (x :: xs).mapM f =
      match f x with
      | .error e => .error e
      | .ok y => (xs.mapM f).map (y :: ·) := by
  rw [List.mapM_cons]
  cases f x <;> rfl

/-- A list of attempts succeeds exactly if each of them does. -/
theorem mapM_eq_ok_iff {f : α → Except ε β} {xs : List α} {ys : List β} :
    xs.mapM f = .ok ys ↔ xs.map f = ys.map .ok := by
  constructor
  · intro h
    induction xs generalizing ys with
    | nil =>
      cases h
      rfl
    | cons x xs ih =>
      rw [mapM_cons_eq_match] at h
      cases hx : f x with
      | error e => simp only [hx, reduceCtorEq] at h
      | ok y =>
        cases hxs : xs.mapM f with
        | error e => simp only [hx, hxs, Except.map, reduceCtorEq] at h
        | ok zs =>
          simp only [hx, hxs, Except.map, Except.ok.injEq] at h
          rw [← h, List.map_cons, List.map_cons, hx, ih hxs]
  · intro h
    induction xs generalizing ys with
    | nil =>
      rw [List.map_eq_nil_iff.mp h.symm]
      rfl
    | cons x xs ih =>
      cases ys with
      | nil => cases h
      | cons y ys =>
        obtain ⟨hx, hxs⟩ := List.cons_eq_cons.mp h
        rw [mapM_cons_eq_match, hx, ih hxs]
        rfl

/-- A list of attempts succeeds exactly if each of them does, with the result in its place. -/
theorem mapM_eq_ok_iff_forall₂ {f : α → Except ε β} {xs : List α} {ys : List β} :
    xs.mapM f = .ok ys ↔ List.Forall₂ (fun x y => f x = .ok y) xs ys := by
  rw [mapM_eq_ok_iff, ← List.forall₂_eq_eq_eq, List.forall₂_map_left_iff,
    List.forall₂_map_right_iff]

/-- A list of attempts fails as the first of them that fails. -/
theorem mapM_eq_error {f : α → Except ε β} {xs : List α} {n : Nat} {x : α} {e : ε}
    (hx : xs[n]? = some x) (hfails : f x = .error e)
    (hbefore : ∀ m < n, ∀ y, xs[m]? = some y → ∃ z, f y = .ok z) : xs.mapM f = .error e := by
  induction xs generalizing n with
  | nil => cases hx
  | cons first xs ih =>
    rw [mapM_cons_eq_match]
    cases n with
    | zero =>
      obtain rfl := Option.some.inj hx
      rw [hfails]
    | succ n =>
      obtain ⟨z, hz⟩ := hbefore 0 n.succ_pos first rfl
      have hrest : xs.mapM f = .error e :=
        ih hx fun m hm y hy => hbefore (m + 1) (Nat.succ_lt_succ hm) y hy
      rw [hz, hrest]
      rfl

/-- A list of attempts fails exactly if one of them fails behind others that succeed, and fails
as that one does. -/
theorem mapM_eq_error_iff {f : α → Except ε β} {xs : List α} {e : ε} :
    xs.mapM f = .error e ↔
      ∃ before x after, xs = before ++ x :: after ∧ (∀ y ∈ before, ∃ z, f y = .ok z) ∧
        f x = .error e := by
  constructor
  · intro h
    induction xs with
    | nil => cases h
    | cons first xs ih =>
      rw [mapM_cons_eq_match] at h
      cases hfirst : f first with
      | error e' =>
        simp only [hfirst, Except.error.injEq] at h
        exact ⟨[], first, xs, rfl, fun y hy => absurd hy List.not_mem_nil, h ▸ hfirst⟩
      | ok z =>
        cases hrest : xs.mapM f with
        | ok zs => simp only [hfirst, hrest, Except.map, reduceCtorEq] at h
        | error e' =>
          simp only [hfirst, hrest, Except.map, Except.error.injEq] at h
          obtain ⟨before, x, after, rfl, hbefore, hx⟩ := ih (h ▸ hrest)
          exact ⟨first :: before, x, after, rfl,
            List.forall_mem_cons.mpr ⟨⟨z, hfirst⟩, hbefore⟩, hx⟩
  · rintro ⟨before, x, after, rfl, hbefore, hx⟩
    induction before with
    | nil => rw [List.nil_append, mapM_cons_eq_match, hx]
    | cons first before ih =>
      obtain ⟨⟨z, hz⟩, htail⟩ := List.forall_mem_cons.mp hbefore
      rw [List.cons_append, mapM_cons_eq_match, hz, ih htail]
      rfl

/-- Behind attempts that succeed, the attempts that follow decide. -/
theorem mapM_append_of_eq_ok {f : α → Except ε β} {xs : List α} {zs : List β}
    (h : xs.mapM f = .ok zs) (ys : List α) : (xs ++ ys).mapM f = (ys.mapM f).map (zs ++ ·) := by
  rw [List.mapM_append, h]
  cases ys.mapM f <;> rfl

theorem mapM_eq_some_iff_forall₂ {f : α → Option β} {xs : List α} {ys : List β} :
    xs.mapM f = some ys ↔ List.Forall₂ (fun x y => f x = some y) xs ys := by
  induction xs generalizing ys with
  | nil =>
    rw [List.mapM_nil, List.forall₂_nil_left_iff]
    exact Option.some_inj.trans eq_comm
  | cons x xs ih =>
    rw [List.mapM_cons, List.forall₂_cons_left_iff]
    simp only [Option.bind_eq_bind, Option.bind_eq_some_iff, Option.pure_def, Option.some.injEq, ih]
    constructor
    · rintro ⟨y, hy, ys, hys, rfl⟩
      exact ⟨y, ys, hy, hys, rfl⟩
    · rintro ⟨y, ys, hy, hys, rfl⟩
      exact ⟨y, hy, ys, hys, rfl⟩

end TriCore
