import TriCore.Features
import TriCore.Format
import TriCore.Opcode
import TriCore.Word.Field

/-!
# Decision operations

A decision table is a flat list of operations that is read from front to back, with a register that
holds the field extracted last. A test that fails passes over as many operations as it says, counted
from the operation behind it. A candidate is an opcode together with the format that would read its
operands; a table either commits to it or proposes it, in which case the candidate may be rejected.

Positions in a table and the numbers of operations to pass over are natural numbers. Sums of them
that are taken in machine words are the same as long as none exceeds the largest word.

## Main definitions

* `Candidate` : an opcode and its format.
* `Decision.Op` : one operation.
* `Decision.commit`, `Decision.propose`, `Decision.select`, `Decision.test`,
  `Decision.gate` : runs of operations that are closed in themselves, whose tests pass over
  exactly their own body.
* `Decision.Table` : operations for words of one width.
-/

namespace TriCore

/-- An opcode that a word may have, with the format that would read its operands. -/
structure Candidate where
  opcode : Opcode
  format : Format
deriving DecidableEq

namespace Decision

/-- One operation of a decision table. -/
inductive Op
  /-- Extract a field and make it the current one. -/
  | extract (field : Field)
  /-- Pass over `skip` operations unless the current field has the value. -/
  | filter (value : BitVec 32) (skip : Nat)
  /-- Pass over `skip` operations unless the given field has the value. -/
  | test (field : Field) (value : BitVec 32) (skip : Nat)
  /-- Pass over `skip` operations unless the features are configured. -/
  | gate (features : Features) (skip : Nat)
  /-- Commit to the candidate. -/
  | commit (candidate : Candidate)
  /-- Propose the candidate, and pass over `skip` operations if it is rejected. -/
  | propose (candidate : Candidate) (skip : Nat)
  /-- Give up. -/
  | fail
deriving DecidableEq

/-! ### Closed runs of operations -/

/-- Commit to the candidate. -/
def commit (candidate : Candidate) : List Op := [.commit candidate]

/-- Propose the candidate, and go on with `otherwise` if it is rejected. -/
def propose (candidate : Candidate) (otherwise : List Op) : List Op :=
  .propose candidate 0 :: otherwise

/-- Run each body whose value the field has, and give up behind the last one. -/
def select (field : Field) (arms : List (BitVec 32 × List Op)) : List Op :=
  .extract field ::
    (arms.flatMap (fun arm => .filter arm.1 arm.2.length :: arm.2) ++ [.fail])

/-- Run the body if the field has the value. -/
def test (field : Field) (value : BitVec 32) (body : List Op) : List Op :=
  .test field value body.length :: body

/-- Run the body if the features are configured. -/
def gate (features : Features) (body : List Op) : List Op :=
  .gate features body.length :: body

/-! ### Tables -/

/-- Operations for the words of one width. -/
structure Table where
  width : Width
  ops : List Op
deriving DecidableEq

end Decision

end TriCore
