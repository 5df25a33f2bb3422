import TriCore.Decoder

/-!
# Sweeping a buffer

A sweep decodes a buffer front to back. Each attempt starts where the one before it ended: behind
the instruction, or two bytes on if nothing was decoded, since instructions begin at even
addresses. The sweep ends with the buffer, so the attempts tile it.

## Main definitions

* `Attempt` : one attempt of a sweep, with its place and its outcome.
* `Sweep`, `Sweep.start`, `Sweep.next?` : a place in a buffer, and the attempt made there.
* `Sweep.attempts` : all attempts from a place on.
* `Decoder.decodeAll` : the instructions of a buffer all of whose attempts succeed.
-/

namespace TriCore

/-- One attempt of a sweep. -/
structure Attempt where
  /-- The place in the buffer. -/
  offset : Nat
  /-- The address of that place. -/
  address : UInt64
  result : Except Halt Instruction
  /-- The number of bytes that the attempt uses up. -/
  step : Nat
  /-- What was reported during the attempt. -/
  log : List Event

namespace Attempt

/-- The place of the attempt after this one. -/
def nextOffset (a : Attempt) : Nat := a.offset + a.step

/-- Whether an instruction was decoded. -/
def succeeded (a : Attempt) : Bool := a.result.isOk

/-- The attempts up to the first one that failed, which is included. -/
def upToFailure : List Attempt → List Attempt
  | [] => []
  | a :: rest => if a.succeeded then a :: upToFailure rest else [a]

end Attempt

/-! ### The cursor -/

/-- A place in a buffer that is being swept. -/
structure Sweep where
  decoder : Decoder
  /-- The address of the buffer. -/
  base : UInt64
  /-- The bytes from this place on. -/
  rest : List UInt8
  /-- The number of bytes before this place. -/
  offset : Nat

namespace Sweep

/-- The number of bytes that are skipped where nothing can be decoded. -/
def resyncStep : Nat := 2

/-- The sweep of a buffer, at its front. -/
def start (decoder : Decoder) (bytes : List UInt8) (base : UInt64) : Sweep :=
  ⟨decoder, base, bytes, 0⟩

/-- The address of the place. Addresses wrap around. -/
def address (s : Sweep) : UInt64 := s.base + UInt64.ofNat s.offset

/-- The number of bytes that an attempt uses up when `remaining` are left. -/
def stepAfter (result : Except Halt Instruction) (remaining : Nat) : Nat :=
  match result with
  | .ok i => i.size
  | .error _ => min resyncStep remaining

/-- What a sweep adds to the events of an attempt. -/
def skipEvents (address : UInt64) : Except Halt Instruction → List Event
  | .error (.rejected error) => [.skipping address error]
  | _ => []

/-- The attempt at this place. -/
def attempt (s : Sweep) : Attempt :=
  let decoded := s.decoder.decodeLogged s.rest s.address
  { offset := s.offset
    address := s.address
    result := decoded.value
    step := stepAfter decoded.value s.rest.length
    log := decoded.log ++ skipEvents s.address decoded.value }

/-- The place that is `step` bytes on. -/
def advance (s : Sweep) (step : Nat) : Sweep :=
  { s with rest := s.rest.drop step, offset := s.offset + step }

/-- The attempt at this place and the place behind it, unless the buffer is at its end. -/
def next? (s : Sweep) : Option (Attempt × Sweep) :=
  if s.rest.isEmpty then none else some (s.attempt, s.advance s.attempt.step)

theorem stepAfter_pos (result : Except Halt Instruction) {remaining : Nat} (h : 0 < remaining) :
    0 < stepAfter result remaining := by
  cases result with
  | ok i => exact i.width.bytes_pos
  | error _ => simp only [stepAfter, resyncStep]; omega

theorem length_rest_lt_of_next? {s t : Sweep} {a : Attempt} (h : s.next? = some (a, t)) :
    t.rest.length < s.rest.length := by
  unfold next? at h
  split at h
  · simp at h
  · next hne =>
    simp only [Option.some.injEq, Prod.mk.injEq] at h
    obtain ⟨-, rfl⟩ := h
    have hpos : 0 < s.rest.length := by
      cases hs : s.rest <;> simp_all
    have hstep := stepAfter_pos (s.decoder.decodeLogged s.rest s.address).value hpos
    have : s.attempt.step = stepAfter (s.decoder.decodeLogged s.rest s.address).value
      s.rest.length := rfl
    simp only [advance, List.length_drop]
    omega

/-- The attempts from this place to the end of the buffer. -/
def attempts (s : Sweep) : List Attempt :=
  match _h : s.next? with
  | none => []
  | some (a, t) => a :: t.attempts
termination_by s.rest.length
decreasing_by exact length_rest_lt_of_next? ‹_›

theorem attempts_of_next?_eq_none {s : Sweep} (h : s.next? = none) : s.attempts = [] := by
  rw [attempts]
  split
  · rfl
  · simp_all

theorem attempts_of_next?_eq_some {s t : Sweep} {a : Attempt} (h : s.next? = some (a, t)) :
    s.attempts = a :: t.attempts := by
  rw [attempts]
  split
  · simp_all
  · next h' =>
    rw [h, Option.some.injEq, Prod.mk.injEq] at h'
    rw [h'.1, h'.2]

end Sweep

/-! ### Whole buffers -/

namespace Decoder

/-- The attempts of a sweep over a buffer. -/
def sweep (d : Decoder) (bytes : List UInt8) (base : UInt64) : List Attempt :=
  (Sweep.start d bytes base).attempts

/-- The instructions of a buffer, or the failure of the first attempt that fails. -/
def decodeAll (d : Decoder) (bytes : List UInt8) (base : UInt64) :
    Except Halt (List Instruction) :=
  (d.sweep bytes base).mapM (·.result)

/-- The instructions of a buffer, with the events up to the first failure. -/
def decodeAllLogged (d : Decoder) (bytes : List UInt8) (base : UInt64) :
    Logged (Except Halt (List Instruction)) :=
  ⟨d.decodeAll bytes base, (Attempt.upToFailure (d.sweep bytes base)).flatMap (·.log)⟩

end Decoder

end TriCore
