import Mathlib.Data.List.Basic
import TriCore.Proofs.Decision.Outcome
import TriCore.Proofs.Decision.Reading

/-!
# The course of a walk

A walk can also be told by positions. It stands at an operation, executes it, and then stands behind
it or as many operations further on as a failed test or a rejection passes over. It ends when an
operation says so or when there is none at its position. Nothing is asked of the counts: a test may
lead into the middle of what another one passes over, to a candidate, or past the end.

Whatever an operation does, it either ends the walk or leaves it further on. This makes the course
of a walk a list of growing positions, no longer than the table. The operations on it that offer a
candidate are what the caller sees, and the last of them decides the result unless it was rejected.
A caller that takes notes of what it is offered, and otherwise answers as before, has the notes of
these operations in the end.

## Main definitions

* `Decision.Cursor` : where a walk stands.
* `Decision.Op.execute` : what one operation does there.
* `Decision.Op.Decides` : the operation makes an offer whose answer ends the walk.
* `Decision.Course` : the operations that a walk executes, in order, and how it ends.
* `Decision.executed` : the operations at the places of a course.
* `Decision.Offer.NotedBy` : a caller that answers as another one does and keeps notes.
* `Decision.Offer.reworded` : a caller that rejects tentative offers for other reasons.

## Main results

* `Decision.Op.position_lt`, `Decision.Op.decides_or_eq_fail` : an operation leaves a walk further
  on or ends it, by its offer or by giving up.
* `Decision.exists_course_iff` : every walk has a course, and only one.
* `Decision.Course.commit_notMem_dropLast` : a final offer is the last thing that a walk executes.
* `Decision.Course.walkFrom_noting` : the notes that are taken on the course of a walk.
* `Decision.Table.walk_forward` : a walk moves forward and ends with the answer to its last offer or
  without a match.
-/

namespace TriCore.Decision

variable {σ α : Type}

/-! ### One operation -/

/-- Where a walk stands: the position of the operation that comes next, the field extracted last,
and the state of the caller. -/
structure Cursor (σ : Type) where
  position : Nat
  current : BitVec 32
  state : σ

namespace Cursor

/-- At the first operation of a table, with no field extracted yet. -/
def start (s : σ) : Cursor σ := ⟨0, 0, s⟩

/-- Behind the operation at the cursor and behind `skip` further ones. -/
def pass (c : Cursor σ) (skip : Nat) : Cursor σ := { c with position := c.position + 1 + skip }

theorem position_lt_pass (c : Cursor σ) (skip : Nat) : c.position < (c.pass skip).position :=
  Nat.lt_add_right skip c.position.lt_succ_self

end Cursor

/-- What an operation does to a walk. -/
inductive Effect (σ α : Type)
  /-- The walk goes on from another place. -/
  | goOn (next : Cursor σ)
  /-- The walk ends with a result and a state of the caller. -/
  | stop (ending : Except Halt α × σ)

section Execution

variable (w : Word) (features : Features) (offer : Offer σ α)

/-- What an operation does to a walk that stands at it. -/
def Op.execute (c : Cursor σ) : Op → Effect σ α
  | extract field =>
    match w.read field with
    | .ok value => .goOn { c.pass 0 with current := value }
    | .error halt => .stop (.error halt, c.state)
  | filter value skip => .goOn (c.pass (if c.current = value then 0 else skip))
  | test field value skip =>
    match w.read field with
    | .ok found => .goOn (c.pass (if found = value then 0 else skip))
    | .error halt => .stop (.error halt, c.state)
  | gate required skip => .goOn (c.pass (if features.Contains required then 0 else skip))
  | commit candidate => .stop (offer .final candidate c.state)
  | propose candidate skip =>
    match offer .tentative candidate c.state with
    | (.error (.rejected _), s) => .goOn { c.pass skip with state := s }
    | answer => .stop answer
  | fail => .stop (Plan.noMatch w c.state)

/-- The operation offers a candidate, and the answer is the end of the walk: the offer is final, or
it is tentative and was not rejected. -/
inductive Op.Decides (c : Cursor σ) : Op → Except Halt α × σ → Prop
  | final (candidate : Candidate) :
      Decides c (.commit candidate) (offer .final candidate c.state)
  | tentative (candidate : Candidate) (skip : Nat)
      (accepted : ∀ error, (offer .tentative candidate c.state).1 ≠ .error (.rejected error)) :
      Decides c (.propose candidate skip) (offer .tentative candidate c.state)

variable {w features offer} {op : Op} {c next : Cursor σ} {r : Except Halt α × σ}

/-- An operation after which a walk goes on leaves it further on. -/
theorem Op.position_lt (h : op.execute w features offer c = .goOn next) :
    c.position < next.position := by
  cases op with
  | extract field =>
    simp only [execute] at h
    cases hread : w.read field with
    | error halt => simp only [hread, reduceCtorEq] at h
    | ok value =>
      simp only [hread, Effect.goOn.injEq] at h
      exact h ▸ c.position_lt_pass 0
  | filter value skip =>
    cases h
    exact c.position_lt_pass _
  | test field value skip =>
    simp only [execute] at h
    cases hread : w.read field with
    | error halt => simp only [hread, reduceCtorEq] at h
    | ok found =>
      simp only [hread, Effect.goOn.injEq] at h
      exact h ▸ c.position_lt_pass _
  | gate required skip =>
    cases h
    exact c.position_lt_pass _
  | commit candidate => cases h
  | propose candidate skip =>
    simp only [execute] at h
    rcases hanswer : offer .tentative candidate c.state with ⟨(error | field) | a, s⟩
    · simp only [hanswer, Effect.goOn.injEq] at h
      exact h ▸ c.position_lt_pass skip
    · simp only [hanswer, reduceCtorEq] at h
    · simp only [hanswer, reduceCtorEq] at h
  | fail => cases h

theorem Op.Decides.execute_eq (h : op.Decides offer c r) :
    op.execute w features offer c = .stop r := by
  cases h with
  | final candidate => rfl
  | tentative candidate skip accepted =>
    simp only [execute]
    rcases hanswer : offer .tentative candidate c.state with ⟨(error | field) | a, s⟩
    · exact absurd (congrArg Prod.fst hanswer) (accepted error)
    · rfl
    · rfl

/-- An operation that ends a walk decides it or gives up. -/
theorem Op.decides_or_eq_fail (hop : op.InRange) (h : op.execute w features offer c = .stop r) :
    op.Decides offer c r ∨ op = .fail ∧ r = Plan.noMatch w c.state := by
  cases op with
  | extract field =>
    simp only [execute, Word.read_of_inRange w hop, reduceCtorEq] at h
  | filter value skip => cases h
  | test field value skip =>
    simp only [execute, Word.read_of_inRange w hop, reduceCtorEq] at h
  | gate required skip => cases h
  | commit candidate =>
    cases h
    exact .inl (.final candidate)
  | propose candidate skip =>
    have decides := @Decides.tentative σ α offer c candidate skip
    simp only [execute] at h
    rcases hanswer : offer .tentative candidate c.state with ⟨(error | field) | a, s⟩
    · simp only [hanswer, reduceCtorEq] at h
    · simp only [hanswer, Effect.stop.injEq] at h decides
      exact .inl (h ▸ decides fun _ hrejected => by cases hrejected)
    · simp only [hanswer, Effect.stop.injEq] at h decides
      exact .inl (h ▸ decides fun _ hrejected => by cases hrejected)
  | fail =>
    cases h
    exact .inr ⟨rfl, rfl⟩

end Execution

/-! ### Whole walks -/

section Course

variable (w : Word) (features : Features) (offer : Offer σ α) (ops : List Op)

/-- What the operation at a cursor does to a walk over `ops`, if there is one. -/
def effect? (c : Cursor σ) : Option (Effect σ α) :=
  ops[c.position]?.map fun op => op.execute w features offer c

/-- A walk over `ops` that stands at a cursor executes the operations at the cursors of a list, in
this order, and ends with a result and a state of the caller. -/
inductive Course : Cursor σ → List (Cursor σ) → Except Halt α × σ → Prop
  /-- There is no operation at the cursor. -/
  | past {c : Cursor σ} (h : effect? w features offer ops c = none) :
      Course c [] (Plan.noMatch w c.state)
  /-- The operation at the cursor ends the walk. -/
  | stop {c : Cursor σ} {r : Except Halt α × σ}
      (h : effect? w features offer ops c = some (.stop r)) : Course c [c] r
  /-- The walk goes on behind the operation at the cursor. -/
  | goOn {c next : Cursor σ} {visited : List (Cursor σ)} {r : Except Halt α × σ}
      (h : effect? w features offer ops c = some (.goOn next)) (rest : Course next visited r) :
      Course c (c :: visited) r

/-- The operations at the cursors of a list. -/
def executed (visited : List (Cursor σ)) : List Op :=
  visited.filterMap fun c => ops[c.position]?

/-- The walk over `ops` from a cursor on. -/
def walkFrom (c : Cursor σ) : Except Halt α × σ :=
  walk w features offer (ops.drop c.position) 0 c.current c.state

/-- Operations that are to be passed over may be left out. -/
theorem walk_drop (skip : Nat) (current : BitVec 32) (s : σ) :
    walk w features offer (ops.drop skip) 0 current s =
      walk w features offer ops skip current s := by
  induction skip generalizing ops with
  | zero => rfl
  | succ skip ih =>
    cases ops with
    | nil => rfl
    | cons op ops => exact ih ops

/-- A walk executes one operation at a time. -/
theorem walkFrom_eq (c : Cursor σ) :
    walkFrom w features offer ops c =
      match effect? w features offer ops c with
      | none => Plan.noMatch w c.state
      | some (.goOn next) => walkFrom w features offer ops next
      | some (.stop r) => r := by
  by_cases hlt : c.position < ops.length
  case neg =>
    rw [walkFrom, effect?, List.drop_eq_nil_of_le (Nat.le_of_not_lt hlt),
      List.getElem?_eq_none (Nat.le_of_not_lt hlt)]
    rfl
  have behind (skip : Nat) (current : BitVec 32) (s : σ) :
      walk w features offer (ops.drop (c.position + 1)) skip current s =
        walkFrom w features offer ops ⟨c.position + 1 + skip, current, s⟩ := by
    rw [← walk_drop, List.drop_drop]
    rfl
  rw [walkFrom, effect?, List.drop_eq_getElem_cons hlt, List.getElem?_eq_getElem hlt]
  cases ops[c.position] with
  | extract field =>
    simp only [walk, Option.map_some, Op.execute]
    cases w.read field with
    | error halt => rfl
    | ok value => exact behind 0 value c.state
  | filter value skip => exact behind _ c.current c.state
  | test field value skip =>
    simp only [walk, Option.map_some, Op.execute]
    cases w.read field with
    | error halt => rfl
    | ok found => exact behind _ c.current c.state
  | gate required skip => exact behind _ c.current c.state
  | commit candidate => rfl
  | propose candidate skip =>
    simp only [walk, Option.map_some, Op.execute]
    obtain ⟨(error | field) | a, s⟩ := offer .tentative candidate c.state
    · exact behind skip c.current s
    · rfl
    · rfl
  | fail => rfl

variable {w features offer ops} {c next : Cursor σ} {visited : List (Cursor σ)}
  {r : Except Halt α × σ}

theorem effect?_eq_some_iff {effect : Effect σ α} :
    effect? w features offer ops c = some effect ↔
      ∃ op, ops[c.position]? = some op ∧ op.execute w features offer c = effect :=
  Option.map_eq_some_iff

theorem position_lt_length {effect : Effect σ α}
    (h : effect? w features offer ops c = some effect) : c.position < ops.length := by
  obtain ⟨op, hop, -⟩ := effect?_eq_some_iff.mp h
  exact (List.getElem?_eq_some_iff.mp hop).1

theorem executed_cons {op : Op} (h : ops[c.position]? = some op) (visited : List (Cursor σ)) :
    executed ops (c :: visited) = op :: executed ops visited := by
  rw [executed, List.filterMap_cons, h, executed]

theorem position_lt_of_goOn (h : effect? w features offer ops c = some (.goOn next)) :
    c.position < next.position := by
  obtain ⟨op, -, hgo⟩ := effect?_eq_some_iff.mp h
  exact Op.position_lt hgo

variable (w features offer ops) in
/-- Every walk has a course: each operation leaves it further on, so it comes to an end. -/
theorem exists_course (c : Cursor σ) :
    ∃ visited, Course w features offer ops c visited (walkFrom w features offer ops c) := by
  induction hrest : ops.length - c.position using Nat.strongRecOn generalizing c with
  | ind rest ih =>
    rw [walkFrom_eq]
    rcases heffect : effect? w features offer ops c with _ | next | r
    · exact ⟨[], .past heffect⟩
    · have hforward := position_lt_of_goOn heffect
      have hlt := position_lt_length heffect
      obtain ⟨visited, hvisited⟩ := ih (ops.length - next.position) (by omega) next rfl
      exact ⟨c :: visited, .goOn heffect hvisited⟩
    · exact ⟨[c], .stop heffect⟩

namespace Course

/-- No walk has two courses. -/
theorem unique (h : Course w features offer ops c visited r) {visited' : List (Cursor σ)}
    {r' : Except Halt α × σ} (h' : Course w features offer ops c visited' r') :
    visited' = visited ∧ r' = r := by
  induction h generalizing visited' r' with
  | past heffect =>
    cases h' with
    | past => exact ⟨rfl, rfl⟩
    | stop heffect' | goOn heffect' => cases heffect.symm.trans heffect'
  | stop heffect =>
    cases h' with
    | stop heffect' =>
      cases heffect.symm.trans heffect'
      exact ⟨rfl, rfl⟩
    | past heffect' | goOn heffect' => cases heffect.symm.trans heffect'
  | goOn heffect rest ih =>
    cases h' with
    | goOn heffect' rest' =>
      cases heffect.symm.trans heffect'
      obtain ⟨rfl, rfl⟩ := ih rest'
      exact ⟨rfl, rfl⟩
    | past heffect' | stop heffect' => cases heffect.symm.trans heffect'

/-- The operations that a walk executes stand at or behind the place where it starts. -/
theorem position_le (h : Course w features offer ops c visited r) :
    ∀ c' ∈ visited, c.position ≤ c'.position := by
  induction h with
  | past => exact nofun
  | stop => exact List.forall_mem_singleton.mpr (Nat.le_refl _)
  | goOn heffect rest ih =>
    have hforward := position_lt_of_goOn heffect
    exact List.forall_mem_cons.mpr
      ⟨Nat.le_refl _, fun c' hc' => Nat.le_trans (Nat.le_of_lt hforward) (ih c' hc')⟩

/-- A walk executes operations at growing positions. -/
theorem pairwise_position (h : Course w features offer ops c visited r) :
    (visited.map Cursor.position).Pairwise (· < ·) := by
  induction h with
  | past => exact .nil
  | stop => exact List.pairwise_singleton ..
  | goOn heffect rest ih =>
    refine List.pairwise_cons.mpr ⟨List.forall_mem_map.mpr fun c' hc' => ?_, ih⟩
    exact Nat.lt_of_lt_of_le (position_lt_of_goOn heffect) (rest.position_le c' hc')

/-- A walk executes no more operations than there are from its start on. -/
theorem length_le (h : Course w features offer ops c visited r) :
    visited.length ≤ ops.length - c.position := by
  induction h with
  | past => exact Nat.zero_le _
  | stop heffect =>
    have hlt := position_lt_length heffect
    simp only [List.length_singleton]
    omega
  | goOn heffect rest ih =>
    have hforward := position_lt_of_goOn heffect
    have hlt := position_lt_length heffect
    simp only [List.length_cons]
    omega

/-- An operation that decides a walk is the last one that the walk executes. -/
theorem eq_of_decides (h : Course w features offer ops c visited r) {c' : Cursor σ}
    (hc' : c' ∈ visited) {op : Op} (hop : ops[c'.position]? = some op) {r' : Except Halt α × σ}
    (hdecides : op.Decides offer c' r') : visited.getLast? = some c' ∧ r = r' := by
  have hstops : effect? w features offer ops c' = some (.stop r') :=
    effect?_eq_some_iff.mpr ⟨op, hop, hdecides.execute_eq⟩
  induction h with
  | past => cases hc'
  | stop heffect =>
    obtain rfl := List.mem_singleton.mp hc'
    cases heffect.symm.trans hstops
    exact ⟨rfl, rfl⟩
  | goOn heffect rest ih =>
    rcases List.mem_cons.mp hc' with rfl | hrest
    · cases heffect.symm.trans hstops
    · obtain ⟨hlast, hr⟩ := ih hrest
      exact ⟨by rw [List.getLast?_cons, hlast]; rfl, hr⟩

/-- A final offer is the last thing that a walk executes. -/
theorem commit_notMem_dropLast (h : Course w features offer ops c visited r)
    (candidate : Candidate) : Op.commit candidate ∉ (executed ops visited).dropLast := by
  induction h with
  | past => exact List.not_mem_nil
  | stop heffect =>
    obtain ⟨op, hop, -⟩ := effect?_eq_some_iff.mp heffect
    rw [executed_cons hop []]
    exact List.not_mem_nil
  | @goOn c next visited r heffect rest ih =>
    obtain ⟨op, hop, hgo⟩ := effect?_eq_some_iff.mp heffect
    have hfirst : op ≠ .commit candidate := by
      rintro rfl
      cases hgo
    rw [executed_cons hop visited]
    rcases hvisited : executed ops visited with _ | ⟨second, others⟩
    · exact List.not_mem_nil
    · rw [List.dropLast_cons_cons, ← hvisited]
      exact List.not_mem_cons_of_ne_of_not_mem hfirst.symm ih

/-- A walk that no operation decides ends without a match. -/
theorem eq_noMatch (h : Course w features offer ops c visited r)
    (hrange : ∀ op ∈ ops, op.InRange)
    (undecided : ∀ c' ∈ visited, ∀ op r', ops[c'.position]? = some op → ¬op.Decides offer c' r') :
    ∃ s, r = Plan.noMatch w s := by
  induction h with
  | @past c _ => exact ⟨c.state, rfl⟩
  | @stop c r heffect =>
    obtain ⟨op, hop, hstop⟩ := effect?_eq_some_iff.mp heffect
    have hopRange := hrange op (List.mem_of_getElem? hop)
    rcases Op.decides_or_eq_fail hopRange hstop with hdecides | ⟨-, hr⟩
    · exact absurd hdecides (undecided c List.mem_cons_self op r hop)
    · exact ⟨c.state, hr⟩
  | goOn heffect rest ih =>
    exact ih fun c' hc' => undecided c' (List.mem_cons_of_mem _ hc')

end Course

/-- The course of a walk is the one that ends as the walk does. -/
theorem exists_course_iff (w : Word) (features : Features) (offer : Offer σ α) (ops : List Op)
    (c : Cursor σ) :
    ∃ visited, ∀ visited' r, Course w features offer ops c visited' r ↔
      visited' = visited ∧ r = walkFrom w features offer ops c := by
  obtain ⟨visited, hcourse⟩ := exists_course w features offer ops c
  refine ⟨visited, fun visited' r => ⟨hcourse.unique, ?_⟩⟩
  rintro ⟨rfl, rfl⟩
  exact hcourse

end Course

/-! ### What the caller sees -/

section Callers

variable {w : Word} {features : Features} {offer : Offer σ α} {ops : List Op} {c : Cursor σ}
  {visited : List (Cursor σ)} {r : Except Halt α × σ}

/-- The candidate that the operation at a cursor offers, if any. -/
def candidateAt? (ops : List Op) (c : Cursor σ) : Option Candidate :=
  ops[c.position]?.bind Op.candidate?

/-- The same place, for a caller with another state. -/
def Cursor.map {τ : Type} (f : σ → τ) (c : Cursor σ) : Cursor τ :=
  ⟨c.position, c.current, f c.state⟩

/-- The same effect on a walk, for a caller with another state. -/
def Effect.map {τ : Type} (f : σ → τ) : Effect σ α → Effect τ α
  | goOn next => goOn (next.map f)
  | stop (result, s) => stop (result, f s)

section Notes

variable {τ β : Type} {noting : Offer τ α} {state : List β → σ → τ}
  {note : Commitment → Candidate → Except Halt α → List β}

/-- The caller `noting` answers as `offer` does and keeps notes. When it has taken `notes` and
`offer` would be in state `s`, its own state is `state notes s`, and to the notes it adds what
`note` says of the offer and of the answer. -/
def Offer.NotedBy (offer : Offer σ α) (noting : Offer τ α) (state : List β → σ → τ)
    (note : Commitment → Candidate → Except Halt α → List β) : Prop :=
  ∀ commitment candidate notes s,
    noting commitment candidate (state notes s) =
      ((offer commitment candidate s).1,
        state (notes ++ note commitment candidate (offer commitment candidate s).1)
          (offer commitment candidate s).2)

/-- The notes that are taken when an operation is executed. -/
def Op.notes (offer : Offer σ α) (note : Commitment → Candidate → Except Halt α → List β)
    (c : Cursor σ) : Op → List β
  | commit candidate => note .final candidate (offer .final candidate c.state).1
  | propose candidate _ => note .tentative candidate (offer .tentative candidate c.state).1
  | _ => []

/-- The notes that are taken at a cursor. -/
def notesAt (offer : Offer σ α) (note : Commitment → Candidate → Except Halt α → List β)
    (ops : List Op) (c : Cursor σ) : List β :=
  ops[c.position]?.toList.flatMap (Op.notes offer note c)

/-- A caller that takes notes has taken those of an operation once the operation is executed, and is
otherwise treated as before. -/
theorem Op.execute_noting (h : offer.NotedBy noting state note) (notes : List β) (c : Cursor σ)
    (op : Op) :
    op.execute w features noting (c.map (state notes)) =
      (op.execute w features offer c).map (state (notes ++ op.notes offer note c)) := by
  cases op with
  | extract field | test field value skip =>
    simp only [execute, Op.notes, List.append_nil]
    cases w.read field <;> rfl
  | filter value skip | gate required skip | fail =>
    simp only [Op.notes, List.append_nil]
    rfl
  | commit candidate =>
    simp only [execute, Op.notes, Cursor.map, h .final]
    rfl
  | propose candidate skip =>
    simp only [execute, Op.notes, Cursor.map, h .tentative]
    obtain ⟨(error | field) | a, s⟩ := offer .tentative candidate c.state <;> rfl

theorem effect?_noting (h : offer.NotedBy noting state note) (notes : List β) (c : Cursor σ) :
    effect? w features noting ops (c.map (state notes)) =
      (effect? w features offer ops c).map
        (Effect.map (state (notes ++ notesAt offer note ops c))) := by
  rw [effect?, effect?, notesAt, Cursor.map]
  cases ops[c.position]? with
  | none => rfl
  | some op =>
    rw [Option.toList_some, List.flatMap_singleton]
    exact congrArg some (op.execute_noting h notes c)

/-- A caller that takes notes takes those on the course of the walk. -/
theorem Course.walkFrom_noting (hcourse : Course w features offer ops c visited r)
    (h : offer.NotedBy noting state note) (notes : List β) :
    walkFrom w features noting ops (c.map (state notes)) =
      (r.1, state (notes ++ visited.flatMap (notesAt offer note ops)) r.2) := by
  induction hcourse generalizing notes with
  | @past c heffect =>
    rw [walkFrom_eq, effect?_noting h, heffect, List.flatMap_nil, List.append_nil]
    rfl
  | stop heffect =>
    rw [walkFrom_eq, effect?_noting h, heffect, List.flatMap_singleton]
    rfl
  | goOn heffect rest ih =>
    rw [walkFrom_eq, effect?_noting h, heffect, List.flatMap_cons, ← List.append_assoc]
    exact ih _

end Notes

/-- A caller that writes down its offers writes down the candidates on the course of the walk. -/
theorem Course.walkFrom_recorded (h : Course w features offer ops c visited r)
    (seen : List Candidate) :
    walkFrom w features offer.recorded ops (c.map (Prod.mk seen)) =
      (r.1, (seen ++ visited.filterMap (candidateAt? ops), r.2)) := by
  let note : Commitment → Candidate → Except Halt α → List Candidate :=
    fun _ candidate _ => [candidate]
  have hnoted : offer.NotedBy offer.recorded Prod.mk note := fun _ _ _ _ => rfl
  have hnotes (c : Cursor σ) : notesAt offer note ops c = (candidateAt? ops c).toList := by
    rw [notesAt, candidateAt?]
    rcases ops[c.position]? with _ | (_ | _ | _ | _ | _ | _ | _) <;> rfl
  rw [h.walkFrom_noting hnoted seen, funext hnotes, List.filterMap_eq_flatMap_toList]

/-- The caller that rejects tentative offers for other reasons. -/
def Offer.reworded (offer : Offer σ α) (reason : Candidate → DecodeError → DecodeError) :
    Offer σ α := fun commitment candidate s =>
  match commitment, offer commitment candidate s with
  | .tentative, (.error (.rejected error), s') => (.error (.rejected (reason candidate error)), s')
  | _, answer => answer

theorem Op.execute_reworded (reason : Candidate → DecodeError → DecodeError) (c : Cursor σ)
    (op : Op) :
    op.execute w features (offer.reworded reason) c = op.execute w features offer c := by
  cases op with
  | propose candidate skip =>
    simp only [execute, Offer.reworded]
    obtain ⟨(error | field) | a, s⟩ := offer .tentative candidate c.state <;> rfl
  | _ => rfl

/-- The reasons for rejections have no part in a walk. -/
theorem walkFrom_reworded (w : Word) (features : Features) (offer : Offer σ α) (ops : List Op)
    (reason : Candidate → DecodeError → DecodeError) (c : Cursor σ) :
    walkFrom w features (offer.reworded reason) ops c = walkFrom w features offer ops c := by
  have heffect (c : Cursor σ) :
      effect? w features (offer.reworded reason) ops c = effect? w features offer ops c := by
    simp only [effect?, Op.execute_reworded]
  obtain ⟨visited, hcourse⟩ := exists_course w features offer ops c
  generalize walkFrom w features offer ops c = r at hcourse
  induction hcourse with
  | past h | stop h => rw [walkFrom_eq, heffect, h]
  | goOn h rest ih =>
    rw [walkFrom_eq, heffect, h]
    exact ih

end Callers

/-! ### Tables -/

/-- **A walk moves forward and ends with the answer to its last offer or without a match.** For any
table whose fields lie inside a word, however its counts lead, and for any word, features and
caller, a walk has one course. It executes no more operations than the table has, at growing
positions, so that the caller is offered the candidates of the operations on the course, each of
them once and in the order of the table. An operation whose offer is final, or is tentative and not
rejected, is the last on the course, and its answer is the result; if there is none, nothing
matched. Why tentative offers are rejected has no influence on the result. -/
theorem Table.walk_forward {t : Table} (h : t.InRange) (w : Word) (features : Features)
    (offer : Offer σ α) (s : σ) :
    let result := t.walk w features offer s
    ∃ visited : List (Cursor σ),
      (∀ visited' r, Course w features offer t.ops (.start s) visited' r ↔
        visited' = visited ∧ r = result) ∧
      visited.length ≤ t.ops.length ∧
      (visited.map Cursor.position).Pairwise (· < ·) ∧
      t.walk w features offer.recorded ([], s) =
        (result.1, (visited.filterMap (candidateAt? t.ops), result.2)) ∧
      (∀ c ∈ visited, ∀ op r, t.ops[c.position]? = some op → op.Decides offer c r →
        visited.getLast? = some c ∧ result = r) ∧
      ((∀ c ∈ visited, ∀ op r, t.ops[c.position]? = some op → ¬op.Decides offer c r) →
        result.1 = .error (.rejected (.noTableMatch w.bits w.width))) ∧
      ∀ reason, t.walk w features (offer.reworded reason) s = result := by
  intro result
  obtain ⟨visited, hcourse_iff⟩ := exists_course_iff w features offer t.ops (.start s)
  have hcourse := (hcourse_iff visited result).mpr ⟨rfl, rfl⟩
  refine ⟨visited, hcourse_iff, hcourse.length_le, hcourse.pairwise_position,
    hcourse.walkFrom_recorded [],
    fun c hc op r hop hdecides => hcourse.eq_of_decides hc hop hdecides,
    fun hundecided => ?_, fun reason => walkFrom_reworded w features offer t.ops reason (.start s)⟩
  obtain ⟨s', hresult⟩ := hcourse.eq_noMatch h hundecided
  exact congrArg Prod.fst hresult

/-- Operations that are not the layout of a plan, in a table for long words: a filter on a field
that was never extracted, and counts that lead to a candidate and past the end. -/
def scattered : Table :=
  ⟨.long, [.filter 5 1, .commit ⟨.jSb, .sb⟩, .propose ⟨.movASrc, .src⟩ 1, .commit ⟨.jzSb, .sb⟩,
    .test ⟨0, 8⟩ 0x82 3, .propose ⟨.movSrc, .src⟩ 9]⟩

/-- A short word passes over two final offers and ends at the second tentative one. -/
theorem walk_forward_scattered :
    scattered.InRange ∧ ∃ visited : List (Cursor Unit),
      visited.map Cursor.position = [0, 2, 4, 5] ∧
      scattered.walk (.short 0x0382) .all (Plan.rejecting .movASrc) () = (.ok .movSrc, ()) ∧
      scattered.walk (.short 0x0382) .all (Plan.rejecting .movASrc).recorded ([], ()) =
        (.ok .movSrc, ([⟨.movASrc, .src⟩, ⟨.movSrc, .src⟩], ())) := by
  have hrange : scattered.InRange := by decide
  obtain ⟨visited, hcourse, -, -, hoffers, -⟩ := Table.walk_forward hrange (.short 0x0382) .all
    (Plan.rejecting .movASrc) ()
  have course : Course (.short 0x0382) .all (Plan.rejecting .movASrc) scattered.ops (.start ())
      [⟨0, 0, ()⟩, ⟨2, 0, ()⟩, ⟨4, 0, ()⟩, ⟨5, 0, ()⟩] (.ok .movSrc, ()) :=
    .goOn rfl (.goOn rfl (.goOn rfl (.stop rfl)))
  obtain ⟨hvisited, hresult⟩ := (hcourse _ _).mp course
  refine ⟨hrange, visited, by rw [← hvisited]; rfl, hresult.symm, ?_⟩
  rw [hoffers, ← hresult, ← hvisited]
  rfl

end TriCore.Decision
