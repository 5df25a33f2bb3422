import TriCore.Decision.Plan

/-!
# The structured reading of a plan

A plan can be read without laying it out. The reading of a plan either ends with an answer or falls
through; it has no current field, no counts of operations, and nothing behind it that it could jump
to. What is compared with a walk is all that a caller can see: the candidates it is offered, in
order, the state it is left in, and the result.

A field that does not lie inside a word is nothing that a reading could have a value for, so plans
are read only when all of their fields are in range.

## Main definitions

* `Decision.Reading` : what happens when a plan is read.
* `Decision.Plan.InRange` : every field that a plan reads lies inside a word.
* `Decision.Plan.read` : the structured reading.
* `Decision.Offer.recorded` : a caller that also writes down what it is offered.

## Main results

* `Decision.Plan.follow_eq_finish_read` : following a plan is reading it, and going on with what is
  behind it if the reading falls through.
* `Decision.Plan.walk_layout` : a walk over the layout of a plan is the reading of the plan.
-/

namespace TriCore.Decision

variable {σ α : Type}

/-! ### Readings -/

/-- What happens when a plan is read by a caller with states `σ`. -/
structure Reading (σ α : Type) where
  /-- The candidates that were offered, in order. -/
  offers : List Candidate
  /-- The answer that ended the reading, or `none` if it fell through. -/
  ending : Option (Except Halt α)
  /-- The state that the caller was left in. -/
  state : σ

namespace Reading

/-- Nothing is offered and nothing ends. -/
def fallThrough (s : σ) : Reading σ α := ⟨[], none, s⟩

/-- One reading and, if it falls through, another. -/
def andThen (r : Reading σ α) (next : σ → Reading σ α) : Reading σ α :=
  match r.ending with
  | some _ => r
  | none => ⟨r.offers ++ (next r.state).offers, (next r.state).ending, (next r.state).state⟩

/-- The result for the word `w`: nothing matched if the reading fell through. -/
def result (w : Word) (r : Reading σ α) : Except Halt α :=
  r.ending.getD (.error (.rejected (.noTableMatch w.bits w.width)))

/-- The reading that does not fall through: nothing matched instead. -/
def conclusive (w : Word) (r : Reading σ α) : Reading σ α := { r with ending := some (r.result w) }

/-- A reading, and what is behind it if it falls through. -/
def finish (rest : σ → Except Halt α × σ) (r : Reading σ α) : Except Halt α × σ :=
  match r.ending with
  | some answer => (answer, r.state)
  | none => rest r.state

/-- The reading of a caller that had already written down `seen` and goes on writing down. -/
def record (seen : List Candidate) (r : Reading σ α) : Reading (List Candidate × σ) α :=
  ⟨r.offers, r.ending, (seen ++ r.offers, r.state)⟩

theorem finish_andThen (r : Reading σ α) (next : σ → Reading σ α)
    (rest : σ → Except Halt α × σ) :
    (r.andThen next).finish rest = r.finish fun s => (next s).finish rest := by
  obtain ⟨offers, ending, s⟩ := r
  cases ending <;> rfl

theorem finish_noMatch (w : Word) (r : Reading σ α) :
    r.finish (Plan.noMatch w) = (r.result w, r.state) := by
  obtain ⟨offers, ending, s⟩ := r
  cases ending <;> rfl

theorem finish_conclusive (w : Word) (rest : σ → Except Halt α × σ) (r : Reading σ α) :
    (r.conclusive w).finish rest = (r.result w, r.state) := rfl

theorem record_fallThrough (seen : List Candidate) (s : σ) :
    (fallThrough s : Reading σ α).record seen = fallThrough (seen, s) := by
  rw [record, fallThrough, fallThrough, List.append_nil]

theorem record_andThen (seen : List Candidate) (r : Reading σ α) (next : σ → Reading σ α)
    (recordedNext : List Candidate × σ → Reading (List Candidate × σ) α)
    (h : ∀ seen s, recordedNext (seen, s) = (next s).record seen) :
    (r.record seen).andThen recordedNext = (r.andThen next).record seen := by
  obtain ⟨offers, ending, s⟩ := r
  cases ending with
  | some answer => rfl
  | none => simp only [andThen, record, h, List.append_assoc]

theorem record_conclusive (w : Word) (seen : List Candidate) (r : Reading σ α) :
    (r.record seen).conclusive w = (r.conclusive w).record seen := rfl

end Reading

/-- The caller that answers as before and also writes down what it is offered. -/
def Offer.recorded (offer : Offer σ α) : Offer (List Candidate × σ) α :=
  fun commitment candidate s =>
    let answer := offer commitment candidate s.2
    (answer.1, (s.1 ++ [candidate], answer.2))

namespace Plan

/-! ### Reading a plan -/

mutual

/-- Every field that the plan reads lies inside a word. -/
def InRange : Plan → Prop
  | done | commit _ => True
  | propose _ otherwise => otherwise.InRange
  | select field arms => field.InRange ∧ ArmsInRange arms
  | test field _ body => field.InRange ∧ body.InRange
  | gate _ body => body.InRange
  | seq fst snd => fst.InRange ∧ snd.InRange

/-- Every field that the arms of a selection read lies inside a word. -/
def ArmsInRange : List (BitVec 32 × Plan) → Prop
  | [] => True
  | (_, body) :: arms => body.InRange ∧ ArmsInRange arms

end

mutual

/-- The reading of a plan for the word `w`. -/
def read (w : Word) (features : Features) (offer : Offer σ α) : Plan → σ → Reading σ α
  | done, s => .fallThrough s
  | commit candidate, s =>
    let answer := offer .final candidate s
    ⟨[candidate], some answer.1, answer.2⟩
  | propose candidate otherwise, s =>
    match offer .tentative candidate s with
    | (.error (.rejected _), s') =>
      Reading.andThen ⟨[candidate], none, s'⟩ (read w features offer otherwise)
    | (answer, s') => ⟨[candidate], some answer, s'⟩
  | select field arms, s =>
    (readArms w features offer (field.extract w.bits) arms s).conclusive w
  | test field value body, s =>
    if field.extract w.bits = value then read w features offer body s else .fallThrough s
  | gate required body, s =>
    if features.Contains required then read w features offer body s else .fallThrough s
  | seq fst snd, s => (read w features offer fst s).andThen (read w features offer snd)

/-- The reading of the arms of a selection whose field has the value `value`: each arm that has
it, in order, as long as the arms before it fall through. -/
def readArms (w : Word) (features : Features) (offer : Offer σ α) (value : BitVec 32) :
    List (BitVec 32 × Plan) → σ → Reading σ α
  | [], s => .fallThrough s
  | (v, body) :: arms, s =>
    if value = v then
      (read w features offer body s).andThen (readArms w features offer value arms)
    else
      readArms w features offer value arms s

end

variable (w : Word) (features : Features) (offer : Offer σ α)

/-! ### Following a plan -/

mutual

/-- Following a plan is reading it, and going on with what is behind it if the reading falls
through. -/
theorem follow_eq_finish_read :
    (plan : Plan) → plan.InRange → (rest : Rest σ α) → (s : σ) →
      plan.follow w features offer rest s = (plan.read w features offer s).finish rest
  | done, _, _, _ => rfl
  | commit _, _, _, _ => rfl
  | propose candidate otherwise, h, rest, s => by
    simp only [follow, read]
    cases offer .tentative candidate s with
    | mk answer s' =>
      cases answer with
      | ok _ => rfl
      | error halt =>
        cases halt with
        | fault _ => rfl
        | rejected _ =>
          rw [Reading.finish_andThen]
          exact follow_eq_finish_read otherwise h rest s'
  | select field arms, h, rest, s => by
    simp only [follow, read, Word.read_of_inRange w h.1]
    rw [Reading.finish_conclusive, ← Reading.finish_noMatch]
    exact followArms_eq_finish_readArms arms h.2 (field.extract w.bits) s
  | test field value body, h, rest, s => by
    simp only [follow, read, Word.read_of_inRange w h.1]
    split
    · exact follow_eq_finish_read body h.2 rest s
    · rfl
  | gate required body, h, rest, s => by
    simp only [follow, read]
    split
    · exact follow_eq_finish_read body h rest s
    · rfl
  | seq fst snd, h, rest, s => by
    simp only [follow, read]
    rw [follow_eq_finish_read fst h.1, Reading.finish_andThen]
    congr 1
    funext s'
    exact follow_eq_finish_read snd h.2 rest s'

/-- Following the arms of a selection is reading them, and nothing matches behind the last one. -/
theorem followArms_eq_finish_readArms :
    (arms : List (BitVec 32 × Plan)) → ArmsInRange arms → (value : BitVec 32) → (s : σ) →
      followArms w features offer value arms s =
        (readArms w features offer value arms s).finish (noMatch w)
  | [], _, _, _ => rfl
  | (v, body) :: arms, h, value, s => by
    simp only [followArms, readArms]
    split
    · rw [follow_eq_finish_read body h.1, Reading.finish_andThen]
      congr 1
      funext s'
      exact followArms_eq_finish_readArms arms h.2 value s'
    · exact followArms_eq_finish_readArms arms h.2 value s

end

/-! ### Recording what is offered -/

mutual

/-- A caller that writes down its offers reads as before, and writes down what is read. -/
theorem read_recorded :
    (plan : Plan) → (seen : List Candidate) → (s : σ) →
      plan.read w features offer.recorded (seen, s) =
        (plan.read w features offer s).record seen
  | done, seen, s => (Reading.record_fallThrough seen s).symm
  | commit _, _, _ => rfl
  | propose candidate otherwise, seen, s => by
    simp only [read, Offer.recorded]
    cases offer .tentative candidate s with
    | mk answer s' =>
      cases answer with
      | ok _ => rfl
      | error halt =>
        cases halt with
        | fault _ => rfl
        | rejected _ =>
          exact Reading.record_andThen seen ⟨[candidate], none, s'⟩ _ _
            (read_recorded otherwise)
  | select field arms, seen, s => by
    simp only [read]
    rw [readArms_recorded arms, Reading.record_conclusive]
  | test field value body, seen, s => by
    simp only [read]
    split
    · exact read_recorded body seen s
    · exact (Reading.record_fallThrough seen s).symm
  | gate required body, seen, s => by
    simp only [read]
    split
    · exact read_recorded body seen s
    · exact (Reading.record_fallThrough seen s).symm
  | seq fst snd, seen, s => by
    simp only [read]
    rw [read_recorded fst]
    exact Reading.record_andThen seen _ _ _ (read_recorded snd)

/-- The same for the arms of a selection. -/
theorem readArms_recorded :
    (arms : List (BitVec 32 × Plan)) → (value : BitVec 32) → (seen : List Candidate) → (s : σ) →
      readArms w features offer.recorded value arms (seen, s) =
        (readArms w features offer value arms s).record seen
  | [], _, seen, s => (Reading.record_fallThrough seen s).symm
  | (v, body) :: arms, value, seen, s => by
    simp only [readArms]
    split
    · rw [read_recorded body]
      exact Reading.record_andThen seen _ _ _ (readArms_recorded arms value)
    · exact readArms_recorded arms value seen s

end

/-! ### Walking the layout -/

/-- A walk over the layout of a plan ends as the reading of the plan does. -/
theorem walk_ops_eq_read {plan : Plan} (h : plan.InRange) (width : Width) (s : σ) :
    (Table.mk width plan.ops).walk w features offer s =
      ((plan.read w features offer s).result w, (plan.read w features offer s).state) := by
  have layout := walk_ops_append w features offer [] 0 plan s
  rw [List.append_nil] at layout
  rw [Table.walk, layout, follow_eq_finish_read w features offer plan h]
  exact Reading.finish_noMatch w _

/-- **The layout of a plan means what the plan says.** Walked for any word, features and caller, the
flat operations of a plan offer the caller the same candidates in the same order as the structured
reading of the plan, leave it in the same state, and give the same result. -/
theorem walk_layout {plan : Plan} (h : plan.InRange) (width : Width) (s : σ) :
    let r := plan.read w features offer s
    (Table.mk width plan.ops).walk w features offer s = (r.result w, r.state) ∧
      (Table.mk width plan.ops).walk w features offer.recorded ([], s) =
        (r.result w, (r.offers, r.state)) := by
  refine ⟨walk_ops_eq_read w features offer h width s, ?_⟩
  rw [walk_ops_eq_read w features offer.recorded h, read_recorded]
  rfl

/-- Two arms for one value, of which the first proposes a candidate and then falls through. -/
def repeatedArm : Plan :=
  .select ⟨0, 8⟩
    [(0x82, .gate .tc161 (.propose ⟨.movASrc, .src⟩ .done)), (0x82, .commit ⟨.movSrc, .src⟩)]

/-- The caller that rejects one opcode and accepts all others. -/
def rejecting (o : Opcode) : Offer Unit Opcode :=
  fun _ candidate s =>
    if candidate.opcode = o then (.error (.rejected (.undeclaredRegister 0)), s)
    else (.ok candidate.opcode, s)

theorem walk_layout_repeatedArm :
    repeatedArm.InRange ∧
      (Table.mk .short repeatedArm.ops).walk (.short 0x0382) .all
          (rejecting .movASrc).recorded ([], ()) =
        (.ok .movSrc, ([⟨.movASrc, .src⟩, ⟨.movSrc, .src⟩], ())) := by
  have h : repeatedArm.InRange := ⟨by decide, trivial, trivial, trivial⟩
  exact ⟨h, (walk_layout (.short 0x0382) .all (rejecting .movASrc) h .short ()).2⟩

end Plan

end TriCore.Decision
