import TriCore.Decision.Walk

/-!
# How a walk ends

A walk over any list of operations ends in one of three ways: with the answer to a final offer, with
an answer to a tentative offer that is no rejection, or without a match. The list need not be laid
out from a plan, and its tests may pass over any number of operations; only its fields have to lie
inside a word.

## Main definitions

* `Decision.Op.InRange` : the field that an operation reads, if any, lies inside a word.
* `Decision.Op.candidate?` : the candidate that an operation offers, if any.
* `Decision.Ending` : the three ways in which a walk ends.

## Main results

* `Decision.walk_ending` : every walk ends in one of these ways.
* `Decision.exists_offer_of_walk_eq_ok` : what a walk finds is the answer to an offer.
* `Decision.walk_ne_fault` : a walk whose offers never fault does not fault.
-/

namespace TriCore.Decision

/-- The field that an operation reads, if any, lies inside a word. -/
def Op.InRange : Op → Prop
  | extract field | test field _ _ => field.InRange
  | _ => True

instance : (op : Op) → Decidable op.InRange
  | .extract field | .test field _ _ => inferInstanceAs (Decidable field.InRange)
  | .filter .. | .gate .. | .commit _ | .propose .. | .fail => .isTrue trivial

/-- Every field that a table reads lies inside a word. -/
def Table.InRange (t : Table) : Prop := ∀ op ∈ t.ops, op.InRange

instance (t : Table) : Decidable t.InRange := inferInstanceAs (Decidable (∀ op ∈ t.ops, _))

/-- The candidate that an operation offers, if any. -/
def Op.candidate? : Op → Option Candidate
  | commit candidate | propose candidate _ => some candidate
  | _ => none

variable {σ α : Type}

/-- The ways in which a walk over `ops` can end with a result and a state of the caller. -/
inductive Ending (w : Word) (offer : Offer σ α) (ops : List Op) : Except Halt α × σ → Prop
  /-- The answer to a final offer, whatever it is. -/
  | final (candidate : Candidate) (s : σ) (h : .commit candidate ∈ ops) :
      Ending w offer ops (offer .final candidate s)
  /-- The answer to a tentative offer that was not rejected. -/
  | tentative (candidate : Candidate) (skip : Nat) (s : σ) (h : .propose candidate skip ∈ ops)
      (accepted : ∀ error, (offer .tentative candidate s).1 ≠ .error (.rejected error)) :
      Ending w offer ops (offer .tentative candidate s)
  /-- The walk gave up or ran past the end. -/
  | noMatch (s : σ) : Ending w offer ops (.error (.rejected (.noTableMatch w.bits w.width)), s)

/-- A walk over the operations behind an operation is a walk over all of them. -/
theorem Ending.cons {w : Word} {offer : Offer σ α} {ops : List Op} {r : Except Halt α × σ}
    (op : Op) (h : Ending w offer ops r) : Ending w offer (op :: ops) r := by
  cases h with
  | final candidate s h => exact .final candidate s (List.mem_cons_of_mem _ h)
  | tentative candidate skip s h accepted =>
    exact .tentative candidate skip s (List.mem_cons_of_mem _ h) accepted
  | noMatch s => exact .noMatch s

/-- Every walk over operations whose fields lie inside a word ends with an answer to an offer or
without a match. -/
theorem walk_ending (w : Word) (features : Features) (offer : Offer σ α) (ops : List Op)
    (h : ∀ op ∈ ops, op.InRange) (skip : Nat) (current : BitVec 32) (s : σ) :
    Ending w offer ops (walk w features offer ops skip current s) := by
  induction ops generalizing skip current s with
  | nil => exact .noMatch s
  | cons op ops ih =>
    have head : op.InRange := h op List.mem_cons_self
    have tail := ih fun op' hop => h op' (List.mem_cons_of_mem _ hop)
    cases skip with
    | succ skip => exact (tail skip current s).cons op
    | zero =>
      cases op with
      | extract field =>
        simp only [walk, Word.read_of_inRange w head]
        exact (tail 0 _ s).cons _
      | filter value skip => exact (tail _ current s).cons _
      | test field value skip =>
        simp only [walk, Word.read_of_inRange w head]
        exact (tail _ current s).cons _
      | gate required skip => exact (tail _ current s).cons _
      | commit candidate => exact .final candidate s List.mem_cons_self
      | propose candidate skip =>
        have accepted : (∀ error, (offer .tentative candidate s).1 ≠ .error (.rejected error)) →
            Ending w offer (.propose candidate skip :: ops) (offer .tentative candidate s) :=
          .tentative candidate skip s List.mem_cons_self
        simp only [walk]
        cases hanswer : offer .tentative candidate s with
        | mk answer s' =>
          rw [hanswer] at accepted
          cases answer with
          | ok a => exact accepted (by simp)
          | error halt =>
            cases halt with
            | fault field => exact accepted (by simp)
            | rejected error => exact (tail skip current s').cons _
      | fail => exact .noMatch s

/-- What a walk finds is the answer to an offer of one of its candidates. -/
theorem exists_offer_of_walk_eq_ok {w : Word} {features : Features} {offer : Offer σ α}
    {t : Table} (h : t.InRange) {s : σ} {a : α}
    (found : (t.walk w features offer s).1 = .ok a) :
    ∃ commitment candidate s', (offer commitment candidate s').1 = .ok a := by
  have ending := walk_ending w features offer t.ops h 0 0 s
  rw [← Table.walk] at ending
  generalize t.walk w features offer s = r at ending found
  cases ending with
  | final candidate s' _ => exact ⟨.final, candidate, s', found⟩
  | tentative candidate _ s' _ _ => exact ⟨.tentative, candidate, s', found⟩
  | noMatch s' => simp at found

/-- A walk whose offers never fault does not fault. -/
theorem walk_ne_fault {w : Word} {features : Features} {offer : Offer σ α} {t : Table}
    (h : t.InRange) (safe : ∀ commitment candidate s field,
      (offer commitment candidate s).1 ≠ .error (.fault field))
    (s : σ) (field : Field) : (t.walk w features offer s).1 ≠ .error (.fault field) := by
  have ending := walk_ending w features offer t.ops h 0 0 s
  rw [← Table.walk] at ending
  generalize t.walk w features offer s = r at ending
  cases ending with
  | final candidate s' _ => exact safe .final candidate s' field
  | tentative candidate _ s' _ _ => exact safe .tentative candidate s' field
  | noMatch s' => simp

end TriCore.Decision
