import TriCore.Decision.Walk

/-!
# Decision plans

A plan is a decision table before it is laid out flat: a tree of tests whose leaves offer
candidates. A plan has two readings. Laid out as operations it can be walked; taken as it stands
it can be followed, where a test that fails, or a body that ends without an answer, falls through
to what comes behind it. The second reading has no current field and no counts of operations.

## Main definitions

* `Decision.Plan` : the tree of tests.
* `Decision.Plan.ops` : its layout as operations.
* `Decision.Plan.follow` : its reading as a tree.

## Main results

* `Decision.Plan.walk_ops_append` : walking the operations of a plan is following the plan.
-/

namespace TriCore.Decision

/-- A tree of tests whose leaves offer candidates. -/
inductive Plan
  /-- Nothing to do: fall through. -/
  | done
  /-- Commit to the candidate. -/
  | commit (candidate : Candidate)
  /-- Propose the candidate, and go on with `otherwise` if it is rejected. -/
  | propose (candidate : Candidate) (otherwise : Plan)
  /-- Run each body whose value the field has, in order, and give up behind the last one. -/
  | select (field : Field) (arms : List (BitVec 32 × Plan))
  /-- Run the body if the field has the value. -/
  | test (field : Field) (value : BitVec 32) (body : Plan)
  /-- Run the body if the features are configured. -/
  | gate (features : Features) (body : Plan)
  /-- One plan and then another. -/
  | seq (fst snd : Plan)

namespace Plan

/-! ### The layout as operations -/

mutual

/-- The operations of a plan. -/
def ops : Plan → List Op
  | done => []
  | commit candidate => Decision.commit candidate
  | propose candidate otherwise => Decision.propose candidate otherwise.ops
  | select field arms => Decision.select field (armOps arms)
  | test field value body => Decision.test field value body.ops
  | gate features body => Decision.gate features body.ops
  | seq fst snd => fst.ops ++ snd.ops

/-- The operations of the arms of a selection. -/
def armOps : List (BitVec 32 × Plan) → List (BitVec 32 × List Op)
  | [] => []
  | (value, body) :: arms => (value, body.ops) :: armOps arms

end

/-! ### The reading as a tree -/

variable {σ α : Type}

/-- What is behind a plan: how the walk ends if the plan falls through in a given state. -/
abbrev Rest (σ α : Type) : Type := σ → Except Halt α × σ

/-- Nothing matched. -/
def noMatch (w : Word) : Rest σ α :=
  fun s => (.error (.rejected (.noTableMatch w.bits w.width)), s)

mutual

/-- The reading of a plan for a word, with `rest` behind it. -/
def follow (w : Word) (features : Features) (offer : Offer σ α) : Plan → Rest σ α → Rest σ α
  | done, rest, s => rest s
  | commit candidate, _, s => offer .final candidate s
  | propose candidate otherwise, rest, s =>
    match offer .tentative candidate s with
    | (.error (.rejected _), s') => follow w features offer otherwise rest s'
    | answer => answer
  | select field arms, _, s =>
    match w.read field with
    | .ok value => followArms w features offer value arms s
    | .error halt => (.error halt, s)
  | test field value body, rest, s =>
    match w.read field with
    | .ok found => if found = value then follow w features offer body rest s else rest s
    | .error halt => (.error halt, s)
  | gate required body, rest, s =>
    if features.Contains required then follow w features offer body rest s else rest s
  | seq fst snd, rest, s => follow w features offer fst (follow w features offer snd rest) s

/-- The reading of the arms of a selection whose field has the value `value`. -/
def followArms (w : Word) (features : Features) (offer : Offer σ α) (value : BitVec 32) :
    List (BitVec 32 × Plan) → Rest σ α
  | [], s => noMatch w s
  | (v, body) :: arms, s =>
    if value = v then
      follow w features offer body (followArms w features offer value arms) s
    else
      followArms w features offer value arms s

end

/-! ### The two readings agree -/

mutual

/-- A plan that is laid out and walked, with further operations behind it, is followed with the
walk over those operations behind it. The field extracted last is the same there as before the
plan, since whatever extracts a field never falls through. -/
theorem walk_ops_append (w : Word) (features : Features) (offer : Offer σ α) (rest : List Op)
    (current : BitVec 32) :
    (plan : Plan) → (s : σ) →
      walk w features offer (plan.ops ++ rest) 0 current s =
        plan.follow w features offer (walk w features offer rest 0 current) s
  | done, _ => rfl
  | commit _, _ => rfl
  | propose candidate otherwise, s => by
    simp only [ops, follow, Decision.propose, List.cons_append, walk]
    cases offer .tentative candidate s with
    | mk result s' =>
      cases result with
      | ok _ => rfl
      | error halt =>
        cases halt with
        | fault _ => rfl
        | rejected _ => exact walk_ops_append w features offer rest current otherwise s'
  | select field arms, s => by
    simp only [ops, follow, Decision.select, List.cons_append, List.append_assoc, walk]
    cases w.read field with
    | error _ => rfl
    | ok value => exact walk_armOps_append w features offer rest value arms s
  | test field value body, s => by
    simp only [ops, follow, Decision.test, List.cons_append, walk]
    cases w.read field with
    | error _ => rfl
    | ok found =>
      dsimp only
      split
      · exact walk_ops_append w features offer rest current body s
      · exact walk_append_length ..
  | gate required body, s => by
    simp only [ops, follow, Decision.gate, List.cons_append, walk]
    split
    · exact walk_ops_append w features offer rest current body s
    · exact walk_append_length ..
  | seq fst snd, s => by
    simp only [ops, follow, List.append_assoc]
    rw [walk_ops_append w features offer (snd.ops ++ rest) current fst s]
    congr 1
    funext s'
    exact walk_ops_append w features offer rest current snd s'

/-- The arms of a selection that are laid out and walked are followed. -/
theorem walk_armOps_append (w : Word) (features : Features) (offer : Offer σ α) (rest : List Op)
    (value : BitVec 32) :
    (arms : List (BitVec 32 × Plan)) → (s : σ) →
      walk w features offer
          ((armOps arms).flatMap (fun arm => .filter arm.1 arm.2.length :: arm.2) ++
            ([.fail] ++ rest)) 0 value s =
        followArms w features offer value arms s
  | [], _ => rfl
  | (v, body) :: arms, s => by
    simp only [armOps, followArms, List.flatMap_cons, List.cons_append, List.append_assoc, walk]
    split
    · rw [walk_ops_append w features offer _ value body s]
      congr 1
      funext s'
      exact walk_armOps_append w features offer rest value arms s'
    · rw [walk_append_length]
      exact walk_armOps_append w features offer rest value arms s

end

end Plan

end TriCore.Decision
