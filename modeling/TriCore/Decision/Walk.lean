import TriCore.Decision.Op
import TriCore.Word.Read

/-!
# Walking a decision table

A walk reads the operations of a table for one word and offers candidates to its caller. The
caller keeps a state of its own, is told how binding each offer is, and answers with a result or a
reason to stop. The answer to a final offer ends the walk. A tentative offer ends it with a result
or a fault; after a rejection the walk goes on. A walk that gives up or runs past the end reports
that nothing matched, whatever was rejected on the way.

Operations that are to be passed over are counted down one by one, so that the walk is a recursion
on the list of operations: it never moves back.

## Main definitions

* `Decision.Commitment`, `Decision.Offer` : how binding an offer is, and how a caller answers
  offers.
* `Decision.walk` : the walk over a list of operations.
* `Decision.Table.walk` : the walk over a table.
-/

namespace TriCore.Decision

/-- How binding the offer of a candidate is: a rejected `tentative` offer lets the walk go on. -/
inductive Commitment
  | final
  | tentative
deriving DecidableEq

/-- How a caller with state `σ` answers the offer of a candidate: with its result or a reason to
stop, and a new state. -/
abbrev Offer (σ α : Type) : Type := Commitment → Candidate → σ → Except Halt α × σ

variable {σ α : Type}

/-- The walk over `ops`, of which the first `skip` are passed over, with the field `current`
extracted last and the caller in state `s`. -/
def walk (w : Word) (features : Features) (offer : Offer σ α) :
    (ops : List Op) → (skip : Nat) → (current : BitVec 32) → (s : σ) → Except Halt α × σ
  | [], _, _, s => (.error (.rejected (.noTableMatch w.bits w.width)), s)
  | _ :: ops, skip + 1, current, s => walk w features offer ops skip current s
  | op :: ops, 0, current, s =>
    match op with
    | .extract field =>
      match w.read field with
      | .ok value => walk w features offer ops 0 value s
      | .error halt => (.error halt, s)
    | .filter value skip =>
      walk w features offer ops (if current = value then 0 else skip) current s
    | .test field value skip =>
      match w.read field with
      | .ok found => walk w features offer ops (if found = value then 0 else skip) current s
      | .error halt => (.error halt, s)
    | .gate required skip =>
      walk w features offer ops (if features.Contains required then 0 else skip) current s
    | .commit candidate => offer .final candidate s
    | .propose candidate skip =>
      match offer .tentative candidate s with
      | (.error (.rejected _), s') => walk w features offer ops skip current s'
      | answer => answer
    | .fail => (.error (.rejected (.noTableMatch w.bits w.width)), s)

/-- Operations that are passed over do nothing. -/
theorem walk_append_length (w : Word) (features : Features) (offer : Offer σ α)
    (body rest : List Op) (current : BitVec 32) (s : σ) :
    walk w features offer (body ++ rest) body.length current s =
      walk w features offer rest 0 current s := by
  induction body with
  | nil => rfl
  | cons op body ih => simpa only [List.cons_append, List.length_cons, walk] using ih

/-- The walk over a table, with no field extracted yet. The word need not have the table's width. -/
def Table.walk (t : Table) (w : Word) (features : Features) (offer : Offer σ α) (s : σ) :
    Except Halt α × σ :=
  Decision.walk w features offer t.ops 0 0 s

end TriCore.Decision
