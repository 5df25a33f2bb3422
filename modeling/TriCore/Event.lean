import TriCore.Decision.Op
import TriCore.Failure

/-!
# Events

A decoder reports what it does as a log of events. Each event has a level, a message and named
fields, from which a listener can follow every walk over a table and every change of plan.

## Main definitions

* `Event`, `Event.level`, `Event.message`, `Event.fields` : what is reported and how it is worded.
* `Logged` : a value together with the events reported on the way to it.
-/

namespace TriCore

/-- Something that a decoder reports. -/
inductive Event
  /-- A walk over the table for the width of a word begins. -/
  | walking (w : Word)
  /-- The table commits to a candidate, whose operands are not read yet. -/
  | matched (candidate : Candidate) (bits : BitVec 32)
  /-- A proposed candidate was rejected. -/
  | candidateRejected (opcode : Opcode) (error : DecodeError)
  /-- The short word at an address was rejected, and the long word is tried. -/
  | retrying (address : UInt64) (error : DecodeError)
  /-- The attempt at an address was rejected, and the sweep moves on. -/
  | skipping (address : UInt64) (error : DecodeError)
deriving DecidableEq

namespace Event

/-- How much detail an event belongs to. -/
inductive Level
  | trace
  | debug
deriving DecidableEq

/-- The name of a level. -/
def Level.name : Level → String
  | trace => "TRACE"
  | debug => "DEBUG"

/-- The value of a field of an event. -/
inductive Value
  | number (n : Nat)
  | text (s : String)
deriving DecidableEq

/-- The level of an event: what happens during a walk is more detailed than what follows from it. -/
def level : Event → Level
  | walking .. | matched .. | candidateRejected .. => .trace
  | retrying .. | skipping .. => .debug

/-- The message of an event. -/
def message : Event → String
  | walking .. => "walking decision table"
  | matched .. => "table match"
  | candidateRejected .. => "candidate rejected, continuing walk"
  | retrying .. => "16-bit decode failed, retrying as 32-bit"
  | skipping .. => "skipping undecodable bytes"

/-- The named fields of an event. -/
def fields : Event → List (String × Value)
  | walking w => [("word", .number w.bits.toNat), ("width", .text w.width.name)]
  | matched candidate bits =>
    [("opcode", .text candidate.opcode.name), ("format", .text candidate.format.name),
      ("word", .number bits.toNat)]
  | candidateRejected opcode error =>
    [("opcode", .text opcode.name), ("error", .text error.message)]
  | retrying address error | skipping address error =>
    [("address", .number address.toNat), ("error", .text error.message)]

end Event

/-- A value together with the events reported on the way to it, in order. -/
structure Logged (α : Type) where
  value : α
  log : List Event

end TriCore
