import TriCore.Proofs.Decoder.WidthSelector

/-!
# What decoding depends on

Decoding reads the words at the start of a byte string and nothing behind them. An attempt to which
no byte is missing has read all that it asks for, so that bytes behind the fourth change neither its
outcome nor what is reported on the way to it; and if it decodes an instruction, bytes behind the
instruction do not change that. The address is recorded on the instruction and otherwise inert: at
another address the walk offers the same candidates in the same order, and the instruction that it
ends with differs in its address only.

## Main definitions

* `Instruction.movedTo` : an instruction at another address.

## Main results

* `Decision.walk_map` : a walk whose answers are mapped.
* `Decoder.decodeWord_movedTo`, `Decoder.decode_movedTo` : decoding at another address.
* `Decoder.decodeLogged_of_take` : decoding depends on four bytes, if none is missing.
* `Decoder.decode_eq_ok_of_prefix`, `Decoder.decode_eq_error_of_prefix` : what is decoded from all
  bytes that begin alike.
-/

namespace TriCore

/-- The instruction at another address. -/
def Instruction.movedTo (i : Instruction) (address : UInt64) : Instruction := { i with address }

/-! ### Walks whose answers are mapped -/

namespace Decision

variable {σ α β : Type}

/-- If the answers of one caller are those of another one with their values mapped, so is what their
walks end with. The callers keep the same state. -/
theorem walk_map {w : Word} {features : Features} {offer : Offer σ α} {offer' : Offer σ β}
    {f : α → β}
    (h : ∀ commitment candidate s, offer' commitment candidate s =
      ((offer commitment candidate s).1.map f, (offer commitment candidate s).2))
    (ops : List Op) (skip : Nat) (current : BitVec 32) (s : σ) :
    walk w features offer' ops skip current s =
      ((walk w features offer ops skip current s).1.map f,
        (walk w features offer ops skip current s).2) := by
  induction ops generalizing skip current s with
  | nil => rfl
  | cons op ops ih =>
    cases skip with
    | succ skip => exact ih skip current s
    | zero =>
      cases op with
      | extract field =>
        simp only [walk]
        cases w.read field with
        | ok value => exact ih 0 value s
        | error halt => rfl
      | filter value skip => exact ih _ current s
      | test field value skip =>
        simp only [walk]
        cases w.read field with
        | ok found => exact ih _ current s
        | error halt => rfl
      | gate required skip => exact ih _ current s
      | commit candidate => exact h .final candidate s
      | propose candidate skip =>
        simp only [walk, h]
        obtain ⟨(error | field) | a, s'⟩ := offer .tentative candidate s
        · exact ih skip current s'
        · rfl
        · rfl
      | fail => rfl

end Decision

namespace Decoder

open Decision

variable {d : Decoder} {bytes : List UInt8} {address : UInt64}

/-! ### Other addresses -/

theorem assemble_movedTo (d : Decoder) (w : Word) (address other : UInt64)
    (candidate : Candidate) :
    d.assemble w other candidate =
      (d.assemble w address candidate).map (·.movedTo other) := by
  unfold assemble
  dsimp only
  generalize candidate.format.decode _ w _ = collected
  obtain ⟨draft, result⟩ := collected
  cases result <;> rfl

/-- Candidates are answered alike at all addresses, with the same events. -/
theorem answer_movedTo (d : Decoder) (w : Word) (address other : UInt64) (commitment : Commitment)
    (candidate : Candidate) (log : List Event) :
    d.answer w other commitment candidate log =
      ((d.answer w address commitment candidate log).1.map (·.movedTo other),
        (d.answer w address commitment candidate log).2) := by
  cases commitment with
  | final => simp only [answer, d.assemble_movedTo w address other candidate]
  | tentative =>
    simp only [answer, d.assemble_movedTo w address other candidate]
    rcases d.assemble w address candidate with (error | field) | i <;> rfl

/-- A word encodes the same instruction at all addresses, but for the address. -/
theorem decodeWord_movedTo (d : Decoder) (w : Word) (address other : UInt64) :
    d.decodeWord w other = (d.decodeWord w address).map (·.movedTo other) :=
  congrArg Prod.fst
    (walk_map (d.answer_movedTo w address other) (d.table w.width).ops 0 0 [.walking w])

/-- Bytes encode the same instruction at all addresses, but for the address. -/
theorem decode_movedTo (d : Decoder) (bytes : List UInt8) (address other : UInt64) :
    d.decode bytes other = (d.decode bytes address).map (·.movedTo other) := by
  rw [decode_eq, decode_eq]
  cases Word.fetch .short bytes with
  | error halt => rfl
  | ok short =>
    simp only [d.decodeWord_movedTo short address other]
    rcases d.decodeWord short address with (error | field) | i
    · cases Word.fetch .long bytes with
      | error halt => rfl
      | ok long => exact d.decodeWord_movedTo long address other
    · rfl
    · rfl

/-! ### Other bytes behind -/

/-- An instruction is decoded from all bytes that begin with its own, at all addresses. -/
theorem decode_eq_ok_of_prefix (hd : d.TablesInRange) {i : Instruction}
    (h : d.decode bytes address = .ok i) {bytes' : List UInt8}
    (hbegins : bytes.take i.size <+: bytes') (other : UInt64) :
    d.decode bytes' other = .ok (i.movedTo other) := by
  obtain ⟨w, hw, hword⟩ := exists_word_of_decode_eq_ok h
  have hbytes : w.toBytes = bytes.take i.size := by
    rw [Instruction.size, (decodeWord_eq_ok hd hword).1, ← w.length_toBytes]
    exact List.prefix_iff_eq_take.mp hw
  have hmoved : d.decodeWord w other = .ok (i.movedTo other) := by
    rw [d.decodeWord_movedTo w address other, hword]
    rfl
  exact decode_of_decodeWord_eq_ok hd (hbytes ▸ hbegins) hmoved

/-- An attempt to which no byte is missing depends on the first four bytes only. -/
theorem decodeLogged_of_take
    (h : ∀ needed available,
      d.decode bytes address ≠ .error (.rejected (.insufficientData needed available)))
    {bytes' : List UInt8} (hbegins : bytes.take 4 <+: bytes') :
    d.decodeLogged bytes' address = d.decodeLogged bytes address := by
  unfold decode decodeLogged at h
  unfold decodeLogged
  cases hshort : Word.fetch .short bytes with
  | error halt =>
    obtain ⟨-, rfl⟩ := Word.fetch_eq_error_iff.mp hshort
    simp only [hshort] at h
    exact absurd rfl (h _ _)
  | ok short =>
    rw [Word.fetch_of_take hshort hbegins]
    simp only [hshort] at h
    dsimp only
    generalize d.decodeWordLogged short address = first at h
    obtain ⟨(error | field) | i, log⟩ := first
    · cases hlong : Word.fetch .long bytes with
      | error halt =>
        obtain ⟨-, rfl⟩ := Word.fetch_eq_error_iff.mp hlong
        simp only [hlong] at h
        exact absurd rfl (h _ _)
      | ok long => rw [Word.fetch_of_take hlong hbegins]
    · rfl
    · rfl

/-- An attempt to which no byte is missing is not changed by further bytes. -/
theorem decodeLogged_append
    (h : ∀ needed available,
      d.decode bytes address ≠ .error (.rejected (.insufficientData needed available)))
    (more : List UInt8) :
    d.decodeLogged (bytes ++ more) address = d.decodeLogged bytes address :=
  decodeLogged_of_take h ((List.take_prefix 4 bytes).trans (List.prefix_append bytes more))

/-- A failure for which no byte is missing is the same for all bytes that begin with the first four,
at all addresses. -/
theorem decode_eq_error_of_prefix {halt : Halt} (h : d.decode bytes address = .error halt)
    (hhalt : ∀ needed available, halt ≠ .rejected (.insufficientData needed available))
    {bytes' : List UInt8} (hbegins : bytes.take 4 <+: bytes') (other : UInt64) :
    d.decode bytes' other = .error halt := by
  have hpresent (needed available : Nat) :
      d.decode bytes address ≠ .error (.rejected (.insufficientData needed available)) := by
    rw [h]
    exact fun heq => hhalt needed available (Except.error.inj heq)
  have hsame : d.decode bytes' address = .error halt :=
    (congrArg Logged.value (decodeLogged_of_take hpresent hbegins)).trans h
  rw [d.decode_movedTo bytes' address other, hsame]
  rfl

end Decoder

end TriCore
