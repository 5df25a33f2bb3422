/-!
# Images

An image is what a program looks like in memory: a list of segments, each a run of bytes at an
address. A window is the part of an address range that lies in the segment which holds its start. A
raw file becomes an image of one segment, of which a part at the front can be skipped and the rest
limited.

## Main definitions

* `Segment`, `Segment.stop`, `Segment.Contains` : a run of bytes at an address.
* `Image`, `Image.window` : segments, and the bytes in a range of addresses.
* `Image.load` : the image of a raw file.
-/

namespace TriCore

/-! ### Segments -/

/-- A run of bytes at an address. -/
structure Segment where
  name : String
  base : UInt64
  bytes : List UInt8
  /-- What the program may do with the bytes. -/
  permissions : String
  /-- Where the bytes come from. -/
  kind : String

namespace Segment

/-- One past the last address of a segment. This is a sum of natural numbers, which never wraps
around; a sum of addresses is the same only where the segment ends within the address space. -/
def stop (s : Segment) : Nat := s.base.toNat + s.bytes.length

/-- An address lies in a segment. -/
def Contains (s : Segment) (address : UInt64) : Prop :=
  s.base.toNat ≤ address.toNat ∧ address.toNat < s.stop

instance (s : Segment) (address : UInt64) : Decidable (s.Contains address) :=
  inferInstanceAs (Decidable (_ ∧ _))

end Segment

/-! ### Images -/

/-- The segments of a program, in order. -/
structure Image where
  segments : List Segment

namespace Image

/-- The bytes from `start` up to `stop`, clipped to the first segment that contains `start`. There
is no window where no segment contains `start`, nor one that ends before it starts. The differences
are exact if `start` is not above `stop`, and those of addresses are the same where the segment ends
within the address space. -/
def window (image : Image) (start stop : UInt64) : Option (List UInt8) := do
  let segment ← image.segments.find? fun s => s.Contains start
  let low := start.toNat - segment.base.toNat
  let high := min stop.toNat segment.stop - segment.base.toNat
  if low ≤ high then some ((segment.bytes.take high).drop low) else none

/-! ### Raw files -/

/-- Why a raw file has no such part. -/
inductive LoadError
  | skipTooLarge
  | limitTooLarge
deriving DecidableEq

/-- The wording of a part that a raw file does not have. -/
def LoadError.message : LoadError → String
  | skipTooLarge => "--skip exceeds file size"
  | limitTooLarge => "--len exceeds remaining file size after skip"

/-- The part of a file behind the first `skip` bytes, limited to `limit` bytes if there is a
limit. -/
def payload (file : List UInt8) (skip : Nat) (limit : Option Nat) :
    Except LoadError (List UInt8) :=
  if file.length < skip then
    .error .skipTooLarge
  else
    let rest := file.drop skip
    match limit with
    | none => .ok rest
    | some n => if rest.length < n then .error .limitTooLarge else .ok (rest.take n)

/-- The image of a raw file: one segment at the given address. -/
def load (file : List UInt8) (base : UInt64) (skip : Nat) (limit : Option Nat) :
    Except LoadError Image :=
  (payload file skip limit).map fun bytes =>
    ⟨[{ name := "segment0", base, bytes, permissions := "r-x", kind := "raw" }]⟩

end Image

end TriCore
