import TriCore.Proofs.Decision.Course
import TriCore.Proofs.Decoder.Totality

/-!
# What a decoder reports

The events of a decoder can be told from what it does. A walk announces itself, then reports every
proposed candidate that is rejected, in the order in which they are reached, and at last the
candidate that it commits to, if it reaches one; a commitment is the last operation that a walk
executes, and it is reported whether or not the operands can be read. A proposed candidate that is
accepted leaves no trace. Bytes are reported as one walk or two, with the change of plan between
them, and a sweep as its attempts, each failure being followed by what is skipped.

The reporting caller of a walk answers as one does that reports nothing, and its log is made of the
notes that it takes on the course of the walk. So each of the relations below says what is reported
in terms of operations and results, and has exactly the log of the decoder as its solution.

## Main definitions

* `Decoder.Executes` : the operations that the walk for a word executes.
* `Decoder.Segment` : what is reported of the walk for a word.
* `Decoder.Reported` : what is reported of decoding bytes.
* `Decoder.Narrated` : what is reported of the attempts of a sweep.
* `Event.notice` : how the events are worded.

## Main results

* `Decoder.decodeWordLogged_eq`, `Decoder.log_eq_of_executes` : the log of a walk in terms of its
  course, and of the operations that it executes.
* `Decoder.segment_iff`, `Decoder.reported_iff`, `Decoder.narrated_iff` : what is reported.
* `Decoder.decode_reports` : the events tell exactly what happened.
-/

namespace TriCore

open Decision

/-- How an event is worded: its level, its message and its named fields. -/
def Event.notice (e : Event) : Level × String × List (String × Value) :=
  (e.level, e.message, e.fields)

/-- The attempts up to the first failure are among the attempts. -/
theorem Attempt.upToFailure_subset (attempts : List Attempt) : upToFailure attempts ⊆ attempts := by
  induction attempts with
  | nil => exact List.Subset.refl _
  | cons a attempts ih =>
    rw [upToFailure]
    split
    · exact List.cons_subset_cons a ih
    · exact List.cons_subset_cons a (List.nil_subset _)

namespace Decoder

variable {d : Decoder} {w : Word} {bytes : List UInt8} {address : UInt64} {log : List Event}

/-! ### Walks -/

/-- The caller of a walk that answers with the instruction and reports nothing. -/
def assembling (d : Decoder) (w : Word) (address : UInt64) : Offer Unit Instruction :=
  fun _ candidate s => (d.assemble w address candidate, s)

/-- What is reported of an offer and the answer to it. -/
def noted (w : Word) : Commitment → Candidate → Except Halt Instruction → List Event
  | .final, candidate, _ => [.matched candidate w.bits]
  | .tentative, candidate, .error (.rejected error) => [.candidateRejected candidate.opcode error]
  | .tentative, _, _ => []

/-- The rejection to which an operation leads, if any. -/
def rejection? (d : Decoder) (w : Word) (address : UInt64) : Op → Option Event
  | .propose candidate _ =>
    match d.assemble w address candidate with
    | .error (.rejected error) => some (.candidateRejected candidate.opcode error)
    | _ => none
  | _ => none

/-- The walk for a word executes these operations, in this order, and ends with what decoding the
word results in. -/
def Executes (d : Decoder) (w : Word) (address : UInt64) (ops : List Op) : Prop :=
  ∃ visited,
    Course w d.features (d.assembling w address) (d.table w.width).ops (.start ()) visited
      (d.decodeWord w address, ()) ∧
    ops = executed (d.table w.width).ops visited

/-- What is reported of the walk for a word. -/
inductive Segment (d : Decoder) (w : Word) (address : UInt64) : List Event → Prop
  /-- The walk commits to nothing. -/
  | uncommitted {ops : List Op} (hops : d.Executes w address ops)
      (hnone : ∀ candidate, .commit candidate ∉ ops) :
      Segment d w address (.walking w :: ops.filterMap (d.rejection? w address))
  /-- The walk commits to a candidate, and this ends it. -/
  | committed {ops : List Op} {candidate : Candidate}
      (hops : d.Executes w address (ops ++ [.commit candidate])) :
      Segment d w address
        (.walking w :: ops.filterMap (d.rejection? w address) ++ [.matched candidate w.bits])

theorem Executes.commit_notMem_dropLast {ops : List Op} (h : d.Executes w address ops)
    (candidate : Candidate) : Op.commit candidate ∉ ops.dropLast := by
  obtain ⟨visited, hcourse, rfl⟩ := h
  exact hcourse.commit_notMem_dropLast candidate

/-- A walk executes no commitment, or one at its end. -/
theorem Executes.commit_cases {ops : List Op} (h : d.Executes w address ops) :
    (∀ candidate, .commit candidate ∉ ops) ∨
      ∃ before candidate, ops = before ++ [.commit candidate] ∧
        ∀ other, .commit other ∉ before := by
  have hbefore := h.commit_notMem_dropLast
  rcases List.eq_nil_or_concat' ops with rfl | ⟨before, last, rfl⟩
  · exact .inl fun candidate => List.not_mem_nil
  rw [List.dropLast_concat] at hbefore
  by_cases hlast : ∃ candidate, last = .commit candidate
  · obtain ⟨candidate, rfl⟩ := hlast
    exact .inr ⟨before, candidate, rfl, hbefore⟩
  · refine .inl fun candidate hmem => ?_
    rcases List.mem_append.mp hmem with hmem | hmem
    · exact hbefore candidate hmem
    · exact hlast ⟨candidate, (List.mem_singleton.mp hmem).symm⟩

/-- The caller that reports answers as the one that does not. -/
theorem notedBy_answer (d : Decoder) (w : Word) (address : UInt64) :
    (d.assembling w address).NotedBy (d.answer w address) (fun log _ => log) (noted w) := by
  intro commitment candidate log s
  cases commitment with
  | final => rfl
  | tentative =>
    simp only [answer, assembling]
    rcases d.assemble w address candidate with (error | field) | i
    · rfl
    · exact congrArg _ (List.append_nil log).symm
    · exact congrArg _ (List.append_nil log).symm

/-- Decoding a word, told by the course of the walk. -/
theorem decodeWordLogged_eq {visited : List (Cursor Unit)} {r : Except Halt Instruction × Unit}
    (h : Course w d.features (d.assembling w address) (d.table w.width).ops (.start ()) visited r) :
    d.decodeWordLogged w address = ⟨r.1, .walking w ::
      visited.flatMap (notesAt (d.assembling w address) (noted w) (d.table w.width).ops)⟩ := by
  have hwalk := h.walkFrom_noting (d.notedBy_answer w address) [.walking w]
  exact congrArg (fun walked => Logged.mk walked.1 walked.2) hwalk

variable (d w address) in
theorem exists_executes : ∃ ops, d.Executes w address ops := by
  obtain ⟨visited, hcourse⟩ :=
    exists_course w d.features (d.assembling w address) (d.table w.width).ops (.start ())
  have hresult : d.decodeWord w address = _ := congrArg Logged.value (decodeWordLogged_eq hcourse)
  exact ⟨_, visited, hresult ▸ hcourse, rfl⟩

/-- An operation that commits to nothing leaves at most a rejection in the log. -/
theorem notes_eq_rejection? {op : Op} (hop : ∀ candidate, op ≠ .commit candidate) :
    op.notes (d.assembling w address) (noted w) (.start ()) =
      (d.rejection? w address op).toList := by
  cases op with
  | commit candidate => exact absurd rfl (hop candidate)
  | propose candidate skip =>
    simp only [Op.notes, rejection?, assembling]
    rcases d.assemble w address candidate with (error | field) | i <;> rfl
  | _ => rfl

/-- The log of a walk is made of what the operations leave there that it executes. -/
theorem log_eq_of_executes {ops : List Op} (h : d.Executes w address ops) :
    (d.decodeWordLogged w address).log =
      .walking w :: ops.flatMap (Op.notes (d.assembling w address) (noted w) (.start ())) := by
  obtain ⟨visited, hcourse, rfl⟩ := h
  rw [decodeWordLogged_eq hcourse, executed, List.filterMap_eq_flatMap_toList, List.flatMap_assoc]
  -- The caller without a log has no state, so the notes are the same at every cursor.
  rfl

/-- What is reported of a walk up to its last operation. -/
theorem flatMap_notes {ops : List Op} (hnone : ∀ candidate, .commit candidate ∉ ops) :
    ops.flatMap (Op.notes (d.assembling w address) (noted w) (.start ())) =
      ops.filterMap (d.rejection? w address) := by
  rw [List.filterMap_eq_flatMap_toList]
  refine List.flatMap_congr fun op hop => notes_eq_rejection? fun candidate => ?_
  rintro rfl
  exact hnone candidate hop

/-- What is reported of a walk is the log of decoding the word. -/
theorem segment_iff : d.Segment w address log ↔ log = (d.decodeWordLogged w address).log := by
  constructor
  · rintro (⟨hops, hnone⟩ | @⟨ops, candidate, hops⟩)
    · rw [log_eq_of_executes hops, flatMap_notes hnone]
    · have hnone (other : Candidate) : .commit other ∉ ops := by
        have := hops.commit_notMem_dropLast other
        rwa [List.dropLast_concat] at this
      rw [log_eq_of_executes hops, List.flatMap_append, flatMap_notes hnone]
      rfl
  · rintro rfl
    obtain ⟨ops, hops⟩ := d.exists_executes w address
    rcases hops.commit_cases with hnone | ⟨before, candidate, rfl, hbefore⟩
    · rw [log_eq_of_executes hops, flatMap_notes hnone]
      exact .uncommitted hops hnone
    · rw [log_eq_of_executes hops, List.flatMap_append, flatMap_notes hbefore]
      exact .committed hops

/-! ### Bytes -/

/-- What is reported of decoding bytes. -/
inductive Reported (d : Decoder) (bytes : List UInt8) (address : UInt64) : List Event → Prop
  /-- There is no short word. -/
  | noShort (hlength : bytes.length < 2) : Reported d bytes address []
  /-- The short word is decoded. -/
  | short {short : Word} {i : Instruction} {log : List Event}
      (hshort : Word.fetch .short bytes = .ok short) (hi : d.decodeWord short address = .ok i)
      (hlog : d.Segment short address log) : Reported d bytes address log
  /-- The short word is not decoded, and there is no long one. -/
  | noLong {short : Word} {error : DecodeError} {log : List Event} (hlength : bytes.length < 4)
      (hshort : Word.fetch .short bytes = .ok short)
      (herror : d.decodeWord short address = .error (.rejected error))
      (hlog : d.Segment short address log) :
      Reported d bytes address (log ++ [.retrying address error])
  /-- The short word is not decoded, and there is a long one. -/
  | long {short long : Word} {error : DecodeError} {log log' : List Event}
      (hshort : Word.fetch .short bytes = .ok short) (hlong : Word.fetch .long bytes = .ok long)
      (herror : d.decodeWord short address = .error (.rejected error))
      (hlog : d.Segment short address log) (hlog' : d.Segment long address log') :
      Reported d bytes address (log ++ .retrying address error :: log')

/-- The log of decoding bytes in terms of the logs of decoding words. -/
theorem log_decodeLogged (d : Decoder) (bytes : List UInt8) (address : UInt64) :
    (d.decodeLogged bytes address).log =
      match Word.fetch .short bytes with
      | .error _ => []
      | .ok short =>
        match d.decodeWord short address with
        | .error (.rejected error) =>
          (d.decodeWordLogged short address).log ++ .retrying address error ::
            match Word.fetch .long bytes with
            | .error _ => []
            | .ok long => (d.decodeWordLogged long address).log
        | _ => (d.decodeWordLogged short address).log := by
  unfold decodeLogged
  cases Word.fetch .short bytes with
  | error halt => rfl
  | ok short =>
    simp only [decodeWord]
    generalize d.decodeWordLogged short address = first
    obtain ⟨(error | field) | i, log⟩ := first
    · cases Word.fetch .long bytes with
      | error halt => rfl
      | ok long => exact List.append_assoc ..
    · rfl
    · rfl

/-- What is reported of decoding bytes is the log of decoding them. -/
theorem reported_iff (hd : d.TablesInRange) :
    d.Reported bytes address log ↔ log = (d.decodeLogged bytes address).log := by
  rw [log_decodeLogged]
  constructor
  · intro h
    cases h with
    | noShort hlength =>
      have hshort : Word.fetch .short bytes =
          .error (.rejected (.insufficientData 2 bytes.length)) :=
        Word.fetch_eq_error_iff.mpr ⟨hlength, rfl⟩
      rw [hshort]
    | short hshort hi hlog => simp only [hshort, hi, segment_iff.mp hlog]
    | noLong hlength hshort herror hlog =>
      have hlong : Word.fetch .long bytes =
          .error (.rejected (.insufficientData 4 bytes.length)) :=
        Word.fetch_eq_error_iff.mpr ⟨hlength, rfl⟩
      simp only [hshort, herror, hlong, segment_iff.mp hlog]
    | long hshort hlong herror hlog hlog' =>
      simp only [hshort, herror, hlong, segment_iff.mp hlog, segment_iff.mp hlog']
  · rintro rfl
    cases hshort : Word.fetch .short bytes with
    | error halt => exact .noShort (Word.fetch_eq_error_iff.mp hshort).1
    | ok short =>
      rcases hfirst : d.decodeWord short address with (error | field) | i
      · cases hlong : Word.fetch .long bytes with
        | error halt =>
          simp only [hfirst]
          have hlength : bytes.length < 4 := (Word.fetch_eq_error_iff.mp hlong).1
          exact .noLong hlength hshort hfirst (segment_iff.mpr rfl)
        | ok long =>
          simp only [hfirst]
          exact .long hshort hlong hfirst (segment_iff.mpr rfl) (segment_iff.mpr rfl)
      · exact absurd hfirst (decodeWord_ne_fault hd field)
      · simp only [hfirst]
        exact .short hshort hfirst (segment_iff.mpr rfl)

/-! ### Sweeps -/

/-- What is reported of attempts that are made in a buffer. -/
inductive Narrated (d : Decoder) (bytes : List UInt8) : List Attempt → List Event → Prop
  /-- There are no attempts. -/
  | nil : Narrated d bytes [] []
  /-- The first attempt succeeds. -/
  | decoded {a : Attempt} {attempts : List Attempt} {i : Instruction} {log log' : List Event}
      (hi : a.result = .ok i) (hlog : d.Reported (bytes.drop a.offset) a.address log)
      (hlog' : Narrated d bytes attempts log') : Narrated d bytes (a :: attempts) (log ++ log')
  /-- The first attempt fails, and what cannot be decoded is skipped. -/
  | skipped {a : Attempt} {attempts : List Attempt} {error : DecodeError} {log log' : List Event}
      (herror : a.result = .error (.rejected error))
      (hlog : d.Reported (bytes.drop a.offset) a.address log)
      (hlog' : Narrated d bytes attempts log') :
      Narrated d bytes (a :: attempts) (log ++ .skipping a.address error :: log')

/-- What is reported during an attempt of a sweep: the log of decoding, and what is skipped. -/
theorem log_of_mem (hd : d.TablesInRange) {base : UInt64} {a : Attempt}
    (ha : a ∈ d.sweep bytes base) :
    a.log = (d.decodeLogged (bytes.drop a.offset) a.address).log ++
      Sweep.skipEvents a.address a.result := by
  obtain ⟨t, ht, -, rfl, rfl, rfl⟩ := Sweep.exists_place hd ha
  exact ht.rest_eq ▸ rfl

/-- What is reported of attempts of a sweep are their logs, one after the other. -/
theorem narrated_iff (hd : d.TablesInRange) {base : UInt64} {attempts : List Attempt}
    (hattempts : attempts ⊆ d.sweep bytes base) :
    d.Narrated bytes attempts log ↔ log = attempts.flatMap Attempt.log := by
  induction attempts generalizing log with
  | nil =>
    constructor
    · rintro ⟨⟩
      rfl
    · rintro rfl
      exact .nil
  | cons a attempts ih =>
    obtain ⟨ha, htail⟩ := List.cons_subset.mp hattempts
    rw [List.flatMap_cons, log_of_mem hd ha]
    constructor
    · intro h
      cases h with
      | decoded hi hlog hlog' =>
        simp only [(reported_iff hd).mp hlog, (ih htail).mp hlog', hi, Sweep.skipEvents,
          List.append_nil]
      | skipped herror hlog hlog' =>
        simp only [(reported_iff hd).mp hlog, (ih htail).mp hlog', herror, Sweep.skipEvents,
          List.append_assoc, List.singleton_append]
    · rintro rfl
      have hlog : d.Reported (bytes.drop a.offset) a.address _ := (reported_iff hd).mpr rfl
      have hlog' : d.Narrated bytes attempts _ := (ih htail).mpr rfl
      rcases hresult : a.result with (error | field) | i
      · simp only [Sweep.skipEvents, List.append_assoc, List.singleton_append]
        exact .skipped hresult hlog hlog'
      · rw [(Sweep.decodes_of_mem hd ha).2] at hresult
        exact absurd hresult (decode_ne_fault hd _ _ field)
      · simp only [Sweep.skipEvents, List.append_nil]
        exact .decoded hresult hlog hlog'

/-- **The events tell exactly what happened.** Take a decoder assembled from any parts whose tables
read no field outside a word. The log of decoding a word is what the walk reports, that of decoding
bytes is what its one or two walks report with the change of plan between them, and that of the
attempts of a sweep, as far as they are made, is what they report one after the other, each failure
being followed by what is skipped. Decoding a whole buffer reports its attempts up to the first that
fails. The events are worded as listed. -/
theorem decode_reports {registers : RegisterFile} {descriptors : DescriptorTable}
    {short long : Table} {features : Features} {d : Decoder}
    (hd : ofParts registers descriptors short long features = .ok d)
    (hshort : short.InRange) (hlong : long.InRange) (bytes : List UInt8) (address : UInt64) :
    (∀ w log, d.Segment w address log ↔ log = (d.decodeWordLogged w address).log) ∧
    (∀ log, d.Reported bytes address log ↔ log = (d.decodeLogged bytes address).log) ∧
    (∀ attempts, attempts <+: d.sweep bytes address →
      ∀ log, d.Narrated bytes attempts log ↔ log = attempts.flatMap Attempt.log) ∧
    (∀ log, d.Narrated bytes (Attempt.upToFailure (d.sweep bytes address)) log ↔
      log = (d.decodeAllLogged bytes address).log) ∧
    (∀ w, (Event.walking w).notice = (.trace, "walking decision table",
      [("word", .number w.bits.toNat), ("width", .text w.width.name)])) ∧
    (∀ opcode error, (Event.candidateRejected opcode error).notice =
      (.trace, "candidate rejected, continuing walk",
        [("opcode", .text opcode.name), ("error", .text error.message)])) ∧
    (∀ candidate bits, (Event.matched candidate bits).notice = (.trace, "table match",
      [("opcode", .text candidate.opcode.name), ("format", .text candidate.format.name),
        ("word", .number bits.toNat)])) ∧
    (∀ place error, (Event.retrying place error).notice =
      (.debug, "16-bit decode failed, retrying as 32-bit",
        [("address", .number place.toNat), ("error", .text error.message)])) ∧
    ∀ place error, (Event.skipping place error).notice = (.debug, "skipping undecodable bytes",
      [("address", .number place.toNat), ("error", .text error.message)]) := by
  have inRange : d.TablesInRange := tablesInRange_of_ofParts hd hshort hlong
  exact ⟨fun w log => segment_iff, fun log => reported_iff inRange,
    fun attempts hattempts log => narrated_iff inRange hattempts.subset,
    fun log => narrated_iff inRange (Attempt.upToFailure_subset _), fun _ => rfl, fun _ _ => rfl,
    fun _ _ => rfl, fun _ _ => rfl, fun _ _ => rfl⟩

/-- A table for short words that proposes a long format and then commits to a short one. -/
def proposingShort : Table := ⟨.short, propose ⟨.jB, .b⟩ (commit ⟨.jSb, .sb⟩)⟩

/-- The decoder with this table and the one that recognises the long form. -/
def proposing : Decoder :=
  ⟨.standard, .standard, proposingShort, branchLong, .all, rfl, misbound.width_long⟩

/-- A long branch, of which the short word is rejected twice, and a single byte behind it. -/
theorem decode_reports_proposing :
    let bytes : List UInt8 := [0x1D, 0x00, 0x40, 0x00, 0x00]
    let first : List Event := [.walking (.short 0x1D),
      .candidateRejected .jB (.widthMismatch .long), .matched ⟨.jSb, .sb⟩ 0x1D]
    let second : List Event := [.walking (.long 0x40001D), .matched ⟨.jB, .b⟩ 0x40001D]
    let decoded : List Event := first ++ .retrying 8 (.widthMismatch .short) :: second
    ofParts .standard .standard proposingShort branchLong .all = .ok proposing ∧
      proposingShort.InRange ∧ branchLong.InRange ∧
      proposing.Segment (.short 0x1D) 8 first ∧
      proposing.Reported bytes 8 decoded ∧
      proposing.Reported (bytes.take 1) 8 [] ∧
      proposing.Narrated bytes (proposing.sweep bytes 8)
        (decoded ++ [.skipping 12 (.insufficientData 2 1)]) := by
  intro bytes first second decoded
  have hparts : ofParts .standard .standard proposingShort branchLong .all = .ok proposing := rfl
  have hshort : proposingShort.InRange := by decide
  have hlong : branchLong.InRange := by decide
  have hall (bytes : List UInt8) := decode_reports hparts hshort hlong bytes 8
  refine ⟨hparts, hshort, hlong, ?_, ?_, ?_, ?_⟩
  · exact ((hall bytes).1 _ _).mpr rfl
  · exact ((hall bytes).2.1 _).mpr rfl
  · exact ((hall (bytes.take 1)).2.1 _).mpr rfl
  · exact ((hall bytes).2.2.1 _ List.prefix_rfl _).mpr (by decide +kernel)

end Decoder

end TriCore
