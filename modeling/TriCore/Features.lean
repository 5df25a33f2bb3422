/-!
# Feature sets

The revisions of the architecture differ in a few instructions. A decoder is configured with the
set of revisions that it may recognise. The set is kept as thirty-two bits, one for each revision
and the rest without a name, so that a set read from elsewhere survives unchanged.

## Main definitions

* `Features`, `Features.Contains` : sets of revisions and their inclusion.
* `Features.tc131`, `Features.tc16`, `Features.tc161`, `Features.tc162`, `Features.all`.
* `Features.named` : the revisions that have a name, in the order of their bits.
-/

namespace TriCore

/-- A set of architecture revisions. -/
structure Features where
  bits : BitVec 32
deriving DecidableEq

namespace Features

/-- The set without any revision. -/
def empty : Features := ⟨0⟩

/-- Revision 1.3.1. -/
def tc131 : Features := ⟨1⟩

/-- Revision 1.6. -/
def tc16 : Features := ⟨2⟩

/-- Revision 1.6.1, which adds short branches with a longer displacement. -/
def tc161 : Features := ⟨4⟩

/-- Revision 1.6.2. -/
def tc162 : Features := ⟨8⟩

/-- The revisions that have a name, in the order of their bits. -/
def named : List (String × Features) :=
  [("TC131", tc131), ("TC16", tc16), ("TC161", tc161), ("TC162", tc162)]

/-- The union of two sets. -/
def union (a b : Features) : Features := ⟨a.bits ||| b.bits⟩

/-- The part of `a` that is not in `b`. -/
def diff (a b : Features) : Features := ⟨a.bits &&& ~~~b.bits⟩

/-- The set of all revisions that have a name. -/
def all : Features := named.foldl (fun set revision => set.union revision.2) empty

/-- Every revision of `required`, named or not, is in `set`. -/
def Contains (set required : Features) : Prop := set.bits &&& required.bits = required.bits

instance (set required : Features) : Decidable (set.Contains required) :=
  inferInstanceAs (Decidable (_ = _))

end Features

end TriCore
