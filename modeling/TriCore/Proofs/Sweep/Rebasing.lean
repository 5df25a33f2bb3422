import Mathlib.Data.List.Forall2
import TriCore.Proofs.Decoder.Locality
import TriCore.Proofs.Sweep.Tiling

/-!
# Sweeps of one buffer at two addresses

The address of a buffer is passed on to every attempt and decides nothing: no attempt takes another
step at another address. Two sweeps of the same buffer therefore go through the same places and do
the same there. All that differs are the addresses, in the attempts and in the instructions, and all
of them by the distance of the two buffers. Addresses wrap around, and so does this distance.

## Main definitions

* `Attempt.Rebased` : the same attempt at another address.
* `Sweep.rebase` : the same place of a buffer that lies elsewhere.

## Main results

* `Sweep.rebased_attempt` : one attempt at another address.
* `Sweep.rebased_attempts` : the attempts of a sweep at another address.
* `Decoder.decode_local` : decoding looks only at the bytes that it needs, and at no address.
-/

namespace TriCore

/-- The attempt `b` is made at the place of `a` and does what `a` does, `distance` bytes further on
in memory. -/
structure Attempt.Rebased (distance : UInt64) (a b : Attempt) : Prop where
  offset : b.offset = a.offset
  step : b.step = a.step
  address : b.address = a.address + distance
  result : b.result = a.result.map fun i => i.movedTo (i.address + distance)

namespace Sweep

/-- The same place of a buffer that lies at `base`. -/
def rebase (s : Sweep) (base : UInt64) : Sweep := { s with base }

theorem address_rebase (s : Sweep) (base : UInt64) :
    (s.rebase base).address = s.address + (base - s.base) := by
  have hbase : base = s.base + (base - s.base) := by
    rw [UInt64.add_comm, UInt64.sub_add_cancel]
  calc (s.rebase base).address
      = s.base + (base - s.base) + UInt64.ofNat s.offset := congrArg (· + _) hbase
    _ = s.address + (base - s.base) := by
      rw [UInt64.add_assoc, UInt64.add_comm (base - s.base), ← UInt64.add_assoc, address]

theorem advance_rebase (s : Sweep) (base : UInt64) (step : Nat) :
    (s.rebase base).advance step = (s.advance step).rebase base := rfl

/-- What is used up does not depend on where an instruction is recorded to lie. -/
theorem stepAfter_map_movedTo (result : Except Halt Instruction) (place : Instruction → UInt64)
    (remaining : Nat) :
    stepAfter (result.map fun i => i.movedTo (place i)) remaining = stepAfter result remaining := by
  cases result <;> rfl

/-- One attempt in a buffer that lies elsewhere. -/
theorem rebased_attempt {s : Sweep} (hd : s.decoder.TablesInRange) (base : UInt64) :
    s.attempt.Rebased (base - s.base) (s.rebase base).attempt := by
  have haddress := address_rebase s base
  have hresult : (s.rebase base).attempt.result =
      s.attempt.result.map fun i => i.movedTo (i.address + (base - s.base)) := by
    have hmoved := s.decoder.decode_movedTo s.rest s.address (s.rebase base).address
    rw [result_attempt, result_attempt]
    refine hmoved.trans ?_
    cases hdecode : s.decoder.decode s.rest s.address with
    | error halt => rfl
    | ok i =>
      obtain ⟨w, -, hword⟩ := Decoder.exists_word_of_decode_eq_ok hdecode
      have hplace : i.address = s.address := (Decoder.decodeWord_eq_ok hd hword).2.2
      rw [haddress, ← hplace]
      rfl
  refine ⟨rfl, ?_, haddress, hresult⟩
  rw [step_attempt, step_attempt, hresult]
  exact stepAfter_map_movedTo _ _ _

/-- The attempts in a buffer that lies elsewhere. -/
theorem rebased_attempts {s : Sweep} (hd : s.decoder.TablesInRange) (base : UInt64) :
    List.Forall₂ (Attempt.Rebased (base - s.base)) s.attempts (s.rebase base).attempts := by
  fun_induction attempts s with
  | case1 s hnone =>
    have hrest : s.rest = [] := next?_eq_none_iff.mp hnone
    have hnone' : (s.rebase base).next? = none := next?_eq_none_iff.mpr hrest
    rw [attempts_of_next?_eq_none hnone']
    exact .nil
  | case2 s a t hnext ih =>
    obtain ⟨hrest, rfl, rfl⟩ := next?_eq_some_iff.mp hnext
    have hattempt := rebased_attempt hd base
    have hnext' : (s.rebase base).next? =
        some ((s.rebase base).attempt, (s.advance s.attempt.step).rebase base) :=
      next?_eq_some_iff.mpr ⟨hrest, rfl, by rw [hattempt.step, advance_rebase]⟩
    rw [attempts_of_next?_eq_some hnext']
    exact .cons hattempt (ih hd)

end Sweep

namespace Decoder

/-- **Decoding looks only at the bytes that it needs, and at no address.** Take a decoder assembled
from any parts whose tables read no field outside a word. An instruction is decoded from all bytes
that begin with its own, at any address, which is the only thing about it that changes. A failure
for which no byte is missing is the same for all bytes that begin with the same four, at any
address. Two sweeps of a buffer at two addresses have as many attempts, at the same places and with
the same results, except that all addresses differ by the distance of the two. -/
theorem decode_local {registers : RegisterFile} {descriptors : DescriptorTable}
    {short long : Decision.Table} {features : Features} {d : Decoder}
    (hd : ofParts registers descriptors short long features = .ok d)
    (hshort : short.InRange) (hlong : long.InRange) (bytes : List UInt8) :
    (∀ address i, d.decode bytes address = .ok i →
      ∀ bytes', bytes.take i.size <+: bytes' → ∀ other,
        d.decode bytes' other = .ok (i.movedTo other)) ∧
    (∀ address halt, d.decode bytes address = .error halt →
      (∀ needed available, halt ≠ .rejected (.insufficientData needed available)) →
      ∀ bytes', bytes.take 4 <+: bytes' → ∀ other, d.decode bytes' other = .error halt) ∧
    ∀ base base', List.Forall₂ (Attempt.Rebased (base' - base)) (d.sweep bytes base)
      (d.sweep bytes base') := by
  have inRange : d.TablesInRange := tablesInRange_of_ofParts hd hshort hlong
  refine ⟨fun _ _ h _ hbegins other => decode_eq_ok_of_prefix inRange h hbegins other,
    fun _ _ h hhalt _ hbegins other => decode_eq_error_of_prefix h hhalt hbegins other,
    fun base base' => ?_⟩
  exact Sweep.rebased_attempts (s := Sweep.start d bytes base) inRange base'

/-- A long form is decoded in front of any other bytes, and four zeros fail with anything behind
them; a buffer of both is swept at addresses that wrap around in one of two places. -/
theorem decode_local_misbound :
    ofParts .standard .standard misboundShort branchLong .all = .ok misbound ∧
      misboundShort.InRange ∧ branchLong.InRange ∧
      misbound.decode [0x1D, 0x00, 0x40, 0x00, 0xFF] 8 = .ok ⟨.jB, [.immediate 0x40 24], .long, 8⟩ ∧
      misbound.decode [0x1D, 0x00, 0x40, 0x00, 0x3C, 0x04] 6 =
        .ok ⟨.jB, [.immediate 0x40 24], .long, 6⟩ ∧
      misbound.decode [0x00, 0x00, 0x00, 0x00] 8 = .error (.rejected (.noTableMatch 0 .long)) ∧
      misbound.decode [0x00, 0x00, 0x00, 0x00, 0x1D] 6 =
        .error (.rejected (.noTableMatch 0 .long)) ∧
      List.Forall₂ (Attempt.Rebased 4)
        (misbound.sweep [0x00, 0x00, 0x1D, 0x00, 0x40, 0x00] 0xFFFFFFFFFFFFFFFE)
        (misbound.sweep [0x00, 0x00, 0x1D, 0x00, 0x40, 0x00] 2) := by
  have hparts : ofParts .standard .standard misboundShort branchLong .all = .ok misbound := rfl
  have hshort : misboundShort.InRange := by decide
  have hlong : branchLong.InRange := by decide
  have hok : misbound.decode [0x1D, 0x00, 0x40, 0x00, 0xFF] 8 =
      .ok ⟨.jB, [.immediate 0x40 24], .long, 8⟩ := rfl
  have herror : misbound.decode [0x00, 0x00, 0x00, 0x00] 8 =
      .error (.rejected (.noTableMatch 0 .long)) := rfl
  refine ⟨hparts, hshort, hlong, hok, ?_, herror, ?_, ?_⟩
  · exact (decode_local hparts hshort hlong _).1 8 _ hok _ (by decide) 6
  · exact (decode_local hparts hshort hlong _).2.1 8 _ herror (by simp) _ (by decide) 6
  · exact (decode_local hparts hshort hlong _).2.2 0xFFFFFFFFFFFFFFFE 2

end Decoder

end TriCore
