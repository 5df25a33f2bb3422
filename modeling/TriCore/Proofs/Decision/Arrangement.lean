import TriCore.Decision.Plan

/-!
# The order of the arms of a selection

A selection runs the arms that have the value of its field, in order. If no two of its arms have the
same value, at most one of them is run, and it does not matter in which order they stand. A plan
whose selections are all of this kind can have its arms rearranged at any depth, and a walk over its
layout is the same as before.

## Main definitions

* `Decision.Plan.Alike` : two plans are followed in the same way, whatever is behind them.
* `Decision.Plan.Distinct` : no selection of the plan has two arms for one value.
* `Decision.Plan.Rearranged` : two plans differ only in the order of arms.

## Main results

* `Decision.Plan.alike_select_of_perm` : the arms of one selection may stand in any order.
* `Decision.Plan.Alike.walk_eq` : walks over the layouts of plans that are alike are the same.
* `Decision.Plan.Rearranged.alike` : a plan with its arms rearranged is followed as before.
* `Decision.Plan.Rearranged.walk_eq` : and so is a walk over its layout.
-/

namespace TriCore.Decision.Plan

variable {σ α : Type}

/-! ### Plans that are followed alike -/

/-- The plans are followed in the same way, whatever is behind them. -/
def Alike (w : Word) (features : Features) (offer : Offer σ α) (plan plan' : Plan) : Prop :=
  ∀ (rest : Rest σ α) (s : σ),
    plan.follow w features offer rest s = plan'.follow w features offer rest s

section Alike

variable {w : Word} {features : Features} {offer : Offer σ α}

/-- The arms of a selection may stand in any order if no two of them have the same value. -/
theorem followArms_perm (value : BitVec 32) {arms arms' : List (BitVec 32 × Plan)}
    (h : arms.Perm arms') (hvalues : (arms.map Prod.fst).Nodup) :
    followArms w features offer value arms = followArms w features offer value arms' := by
  induction h with
  | nil => rfl
  | cons arm h ih =>
    have tail := ih (List.nodup_cons.mp hvalues).2
    funext s
    simp only [followArms, tail]
  | swap arm arm' arms =>
    have hne : arm'.1 ≠ arm.1 := fun heq =>
      (List.nodup_cons.mp hvalues).1 (heq ▸ List.mem_cons_self)
    funext s
    simp only [followArms]
    -- Where one of the two is run, the other is passed over.
    by_cases harm : value = arm.1
    · simp only [harm, if_true, hne.symm, if_false]
    · simp only [harm, if_false]
  | trans h _ ih ih' => exact (ih hvalues).trans (ih' ((h.map Prod.fst).nodup_iff.mp hvalues))

theorem alike_select_of_perm (field : Field) {arms arms' : List (BitVec 32 × Plan)}
    (h : arms.Perm arms') (hvalues : (arms.map Prod.fst).Nodup) :
    Alike w features offer (.select field arms) (.select field arms') := by
  intro rest s
  simp only [follow, followArms_perm _ h hvalues]

namespace Alike

variable {plan plan' body body' fst fst' snd snd' : Plan}

theorem refl (plan : Plan) : Alike w features offer plan plan := fun _ _ => rfl

theorem trans {plan'' : Plan} (h : Alike w features offer plan plan')
    (h' : Alike w features offer plan' plan'') : Alike w features offer plan plan'' :=
  fun rest s => (h rest s).trans (h' rest s)

theorem followArms_eq (h : Alike w features offer body body') (value v : BitVec 32)
    (before after : List (BitVec 32 × Plan)) :
    followArms w features offer value (before ++ (v, body) :: after) =
      followArms w features offer value (before ++ (v, body') :: after) := by
  induction before with
  | nil =>
    funext s
    simp only [List.nil_append, followArms, h _]
  | cons arm before ih =>
    funext s
    simp only [List.cons_append, followArms, ih]

theorem arm (h : Alike w features offer body body') (field : Field) (value : BitVec 32)
    (before after : List (BitVec 32 × Plan)) :
    Alike w features offer (.select field (before ++ (value, body) :: after))
      (.select field (before ++ (value, body') :: after)) := by
  intro rest s
  simp only [follow, h.followArms_eq]

theorem propose (h : Alike w features offer plan plan') (candidate : Candidate) :
    Alike w features offer (.propose candidate plan) (.propose candidate plan') := by
  intro rest s
  simp only [follow]
  split
  · exact h rest _
  · rfl

theorem test (h : Alike w features offer body body') (field : Field) (value : BitVec 32) :
    Alike w features offer (.test field value body) (.test field value body') := by
  intro rest s
  simp only [follow, h rest s]

theorem gate (h : Alike w features offer body body') (required : Features) :
    Alike w features offer (.gate required body) (.gate required body') := by
  intro rest s
  simp only [follow, h rest s]

theorem seq (h : Alike w features offer fst fst') (h' : Alike w features offer snd snd') :
    Alike w features offer (.seq fst snd) (.seq fst' snd') := by
  intro rest s
  have hrest : snd.follow w features offer rest = snd'.follow w features offer rest :=
    funext (h' rest)
  simp only [follow, hrest, h _ s]

/-- Walks over the layouts of plans that are alike are the same. -/
theorem walk_eq (h : Alike w features offer plan plan') (width : Width) (s : σ) :
    (Table.mk width plan'.ops).walk w features offer s =
      (Table.mk width plan.ops).walk w features offer s := by
  have layout := walk_ops_append w features offer [] 0 plan s
  have layout' := walk_ops_append w features offer [] 0 plan' s
  rw [List.append_nil] at layout layout'
  rw [Table.walk, Table.walk, layout, layout', h _ s]

end Alike

end Alike

/-! ### Plans whose arms can be told apart -/

mutual

/-- No selection of the plan has two arms for one value. -/
def Distinct : Plan → Prop
  | done | commit _ => True
  | propose _ otherwise => otherwise.Distinct
  | select _ arms => (arms.map Prod.fst).Nodup ∧ ArmsDistinct arms
  | test _ _ body => body.Distinct
  | gate _ body => body.Distinct
  | seq fst snd => fst.Distinct ∧ snd.Distinct

/-- No selection in an arm has two arms for one value. -/
def ArmsDistinct : List (BitVec 32 × Plan) → Prop
  | [] => True
  | (_, body) :: arms => body.Distinct ∧ ArmsDistinct arms

end

theorem armsDistinct_iff : {arms : List (BitVec 32 × Plan)} →
    (ArmsDistinct arms ↔ ∀ arm ∈ arms, arm.2.Distinct)
  | [] => by simp [ArmsDistinct]
  | (_, _) :: arms => by
    rw [ArmsDistinct, List.forall_mem_cons, armsDistinct_iff]

/-- Two plans differ only in the order of arms. -/
inductive Rearranged : Plan → Plan → Prop
  | refl (plan : Plan) : Rearranged plan plan
  | trans {fst snd thd : Plan} (h : Rearranged fst snd) (h' : Rearranged snd thd) :
      Rearranged fst thd
  /-- The arms of a selection stand in another order. -/
  | select (field : Field) {arms arms' : List (BitVec 32 × Plan)} (h : arms.Perm arms') :
      Rearranged (.select field arms) (.select field arms')
  /-- The body of one arm is rearranged. -/
  | arm (field : Field) (before after : List (BitVec 32 × Plan)) (value : BitVec 32)
      {body body' : Plan} (h : Rearranged body body') :
      Rearranged (.select field (before ++ (value, body) :: after))
        (.select field (before ++ (value, body') :: after))
  | propose (candidate : Candidate) {otherwise otherwise' : Plan}
      (h : Rearranged otherwise otherwise') :
      Rearranged (.propose candidate otherwise) (.propose candidate otherwise')
  | test (field : Field) (value : BitVec 32) {body body' : Plan} (h : Rearranged body body') :
      Rearranged (.test field value body) (.test field value body')
  | gate (features : Features) {body body' : Plan} (h : Rearranged body body') :
      Rearranged (.gate features body) (.gate features body')
  | seq {fst fst' snd snd' : Plan} (h : Rearranged fst fst') (h' : Rearranged snd snd') :
      Rearranged (.seq fst snd) (.seq fst' snd')

/-- Arms that can be told apart can still be told apart in another order. -/
theorem Rearranged.distinct {plan plan' : Plan} (h : Rearranged plan plan')
    (hplan : plan.Distinct) : plan'.Distinct := by
  induction h with
  | refl => exact hplan
  | trans _ _ ih ih' => exact ih' (ih hplan)
  | select field h =>
    obtain ⟨hvalues, hbodies⟩ := hplan
    refine ⟨(h.map Prod.fst).nodup_iff.mp hvalues, armsDistinct_iff.mpr fun arm harm => ?_⟩
    exact armsDistinct_iff.mp hbodies arm (h.mem_iff.mpr harm)
  | @arm field before after value body body' _ ih =>
    obtain ⟨hvalues, hbodies⟩ := hplan
    rw [armsDistinct_iff, List.forall_mem_append, List.forall_mem_cons] at hbodies
    obtain ⟨hbefore, hbody, hafter⟩ := hbodies
    refine ⟨by simpa only [List.map_append, List.map_cons] using hvalues, armsDistinct_iff.mpr ?_⟩
    exact List.forall_mem_append.mpr ⟨hbefore, List.forall_mem_cons.mpr ⟨ih hbody, hafter⟩⟩
  | propose _ _ ih => exact ih hplan
  | test _ _ _ ih => exact ih hplan
  | gate _ _ ih => exact ih hplan
  | seq _ _ ih ih' => exact ⟨ih hplan.1, ih' hplan.2⟩

/-! ### Following rearranged plans -/

section Follow

variable (w : Word) (features : Features) (offer : Offer σ α)

/-- A plan whose arms can be told apart is followed in the same way when they are rearranged. -/
theorem Rearranged.alike {plan plan' : Plan} (h : Rearranged plan plan')
    (hplan : plan.Distinct) : Alike w features offer plan plan' := by
  induction h with
  | refl plan => exact .refl plan
  | trans h _ ih ih' => exact (ih hplan).trans (ih' (h.distinct hplan))
  | select field h => exact alike_select_of_perm field h hplan.1
  | @arm field before after value body body' _ ih =>
    have hbody := armsDistinct_iff.mp hplan.2 (value, body)
      (List.mem_append_right _ List.mem_cons_self)
    exact (ih hbody).arm field value before after
  | propose candidate _ ih => exact (ih hplan).propose candidate
  | test field value _ ih => exact (ih hplan).test field value
  | gate required _ ih => exact (ih hplan).gate required
  | seq _ _ ih ih' => exact (ih hplan.1).seq (ih' hplan.2)

/-- A walk over the layout of a plan is the same when the arms of the plan are rearranged. -/
theorem Rearranged.walk_eq {plan plan' : Plan} (h : Rearranged plan plan')
    (hplan : plan.Distinct) (width : Width) (s : σ) :
    (Table.mk width plan'.ops).walk w features offer s =
      (Table.mk width plan.ops).walk w features offer s :=
  (h.alike w features offer hplan).walk_eq width s

end Follow

end TriCore.Decision.Plan
