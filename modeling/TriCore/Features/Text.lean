import TriCore.Features
import TriCore.Text.Blank
import TriCore.Text.Numeral

/-!
# Feature sets as text

A feature set is written as its named revisions, in the order of their bits, and then whatever is
left as one number in hexadecimal, all separated by bars. It is read back from any list of names and
numbers between bars, in any order and with any blanks around them; blank text is the empty set.

## Main definitions

* `Features.text` : the written form.
* `Features.ofText?` : the set that a text denotes.
-/

namespace TriCore.Features

/-! ### Writing -/

/-- The elements of the written form. -/
def elements (set : Features) : List String :=
  let present := named.filter fun revision => set.Contains revision.2
  let left := present.foldl (fun rest revision => rest.diff revision.2) set
  present.map Prod.fst ++ if left.bits = 0 then [] else [Text.hex left.bits.toNat]

/-- The written form of a set. -/
def text (set : Features) : String := " | ".intercalate set.elements

/-! ### Reading -/

/-- The set that one element denotes: a name, or a number in hexadecimal marked as such. -/
def ofElement? : List Char → Option Features
  | '0' :: 'x' :: digits => (Text.readNumeral 16 UInt32.size digits).toOption.map fun n =>
      ⟨BitVec.ofNat 32 n⟩
  | name => named.lookup (String.ofList name)

/-- The set that a text denotes: the union of its elements. -/
def ofText? (text : String) : Option Features :=
  if (Text.trim text.toList).isEmpty then
    some empty
  else
    (((Text.splitOn '|' text.toList).map Text.trim).mapM ofElement?).map fun sets =>
      sets.foldl union empty

end TriCore.Features
