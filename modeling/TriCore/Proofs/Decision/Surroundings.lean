import TriCore.Proofs.Decision.Arrangement
import TriCore.Proofs.Decision.Reading

/-!
# Selections in their surroundings

A selection whose arms have different values is the same selection with its arms in another order,
wherever it stands: at the end of other tests, as the body of an arm of another selection, behind a
rejected candidate, or with more of the plan behind it. The bodies of its arms may be any plans, and
so may what surrounds it; in particular other selections may have two arms for one value.

What carries this from the selection to the whole plan is that every way to build a plan respects
being followed alike.

## Main definitions

* `Decision.Plan.Surroundings`, `Decision.Plan.Surroundings.around` : a plan with one place left
  open, and the plan that it becomes when the place is filled.

## Main results

* `Decision.Plan.Alike.around` : plans that are alike remain so in any surroundings.
* `Decision.Plan.walk_select_perm` : a walk over a plan in which the arms of one selection are
  permuted.
-/

namespace TriCore.Decision.Plan

variable {σ α : Type}

/-- A plan with one place left open. -/
inductive Surroundings
  /-- Nothing surrounds the place. -/
  | here
  /-- The place is part of what is tried when the candidate is rejected. -/
  | propose (candidate : Candidate) (inner : Surroundings)
  /-- The place is part of the body of an arm, between other arms. -/
  | arm (field : Field) (before : List (BitVec 32 × Plan)) (value : BitVec 32)
      (inner : Surroundings) (after : List (BitVec 32 × Plan))
  | test (field : Field) (value : BitVec 32) (inner : Surroundings)
  | gate (features : Features) (inner : Surroundings)
  /-- The place is part of a plan with another one behind it. -/
  | seqFst (inner : Surroundings) (snd : Plan)
  /-- The place is part of a plan behind another one. -/
  | seqSnd (fst : Plan) (inner : Surroundings)

/-- The surroundings with a plan in the open place. -/
def Surroundings.around (plan : Plan) : Surroundings → Plan
  | here => plan
  | propose candidate inner => .propose candidate (inner.around plan)
  | arm field before value inner after =>
    .select field (before ++ (value, inner.around plan) :: after)
  | test field value inner => .test field value (inner.around plan)
  | gate features inner => .gate features (inner.around plan)
  | seqFst inner snd => .seq (inner.around plan) snd
  | seqSnd fst inner => .seq fst (inner.around plan)

variable {w : Word} {features : Features} {offer : Offer σ α}

/-- Plans that are followed alike remain so in any surroundings. -/
theorem Alike.around {plan plan' : Plan} (h : Alike w features offer plan plan')
    (surroundings : Surroundings) :
    Alike w features offer (surroundings.around plan) (surroundings.around plan') := by
  induction surroundings with
  | here => exact h
  | propose candidate _ ih => exact ih.propose candidate
  | arm field before value _ after ih => exact ih.arm field value before after
  | test field value _ ih => exact ih.test field value
  | gate required _ ih => exact ih.gate required
  | seqFst _ snd ih => exact ih.seq (.refl snd)
  | seqSnd fst _ ih => exact (Alike.refl fst).seq ih

/-- **The arms of a selection may stand in any order.** If no two arms of a selection have the same
value, their order does not matter, whatever plans they hold and whatever plan the selection is part
of. For any word, features and caller, a walk over the layout with the arms permuted offers the same
candidates in the same order, leaves the caller in the same state, and gives the same result. -/
theorem walk_select_perm (surroundings : Surroundings) (field : Field)
    {arms arms' : List (BitVec 32 × Plan)} (h : arms.Perm arms')
    (hvalues : (arms.map Prod.fst).Nodup) (width : Width) (w : Word) (features : Features)
    (offer : Offer σ α) (s : σ) :
    let table (arms : List (BitVec 32 × Plan)) : Table :=
      ⟨width, (surroundings.around (.select field arms)).ops⟩
    (table arms').walk w features offer s = (table arms).walk w features offer s ∧
      (table arms').walk w features offer.recorded ([], s) =
        (table arms).walk w features offer.recorded ([], s) :=
  ⟨((alike_select_of_perm field h hvalues).around surroundings).walk_eq width s,
    ((alike_select_of_perm field h hvalues).around surroundings).walk_eq width ([], s)⟩

/-- An arm that falls through a rejected candidate, an arm with a selection of its own, and an arm
that needs a feature, behind a test and in front of another candidate. Only the first arm is run,
and nothing behind the selection is. -/
theorem walk_select_perm_rejected :
    let surroundings : Surroundings :=
      .seqSnd (.test ⟨0, 1⟩ 1 (.commit ⟨.jSb, .sb⟩)) (.seqFst .here (.commit ⟨.jzSb, .sb⟩))
    let arms : List (BitVec 32 × Plan) :=
      [(0x82, .propose ⟨.movASrc, .src⟩ (.test ⟨12, 4⟩ 0 (.commit ⟨.movSrc, .src⟩))),
        (0x02, .select ⟨8, 4⟩ [(3, .commit ⟨.movSrr, .srr⟩), (3, .commit ⟨.addSrr, .srr⟩)]),
        (0x9E, .gate .tc161 (.commit ⟨.jeqSbc2, .sbc⟩))]
    let reversed : Table := ⟨.short, (surroundings.around (.select ⟨0, 8⟩ arms.reverse)).ops⟩
    (arms.map Prod.fst).Nodup ∧
      reversed.ops ≠ (surroundings.around (.select ⟨0, 8⟩ arms)).ops ∧
      reversed.walk (.short 0x1382) .all (rejecting .movASrc).recorded ([], ()) =
        (.error (.rejected (.noTableMatch 0x1382 .short)), ([⟨.movASrc, .src⟩], ())) := by
  intro surroundings arms reversed
  have hvalues : (arms.map Prod.fst).Nodup := by decide
  refine ⟨hvalues, by decide, ?_⟩
  rw [(walk_select_perm surroundings ⟨0, 8⟩ (List.reverse_perm arms).symm hvalues .short
    (.short 0x1382) .all (rejecting .movASrc) ()).2]
  rfl

end TriCore.Decision.Plan
