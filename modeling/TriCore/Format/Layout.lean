import TriCore.Failure
import TriCore.Format
import TriCore.Opcode.Descriptor

/-!
# Format layouts

The layout of a format lists the places of a word that its operands come from, in the order of the
operands. Registers occupy four bits: the first source at bit `8`, the second at bit `12`, the third
at bit `24`, and the destination of a long form at bit `28`. A register is either a data register by
definition of the format, or of the class that the opcode declares for the slot it fills. Immediates
are gathered from one or more pieces.

The layout depends on the opcode's descriptor in three ways: a tied destination is listed twice,
and the formats `abs` and `rlc` put the register before or behind the immediate, and read one
register or two, as the descriptor declares. A descriptor that declares nothing cannot order the
operands of those two formats.

## Main definitions

* `Format.Source` : where one operand comes from.
* `Format.layout` : the sources of a format, given the opcode's descriptor.
-/

namespace TriCore.Format

/-! ### Sources of operands -/

/-- Where one operand of a format comes from. -/
inductive Source
  /-- A data register, encoded in four bits at `offset`. -/
  | data (offset : Nat)
  /-- A register of the class declared for the slot it fills, encoded in four bits at `offset`. -/
  | declared (offset : Nat)
  /-- The operand before it once more. -/
  | again
  /-- An immediate in the given pieces. -/
  | immediate (pieces : List Fragment)
deriving DecidableEq

namespace Source

/-- The place of the first source register. -/
def first : Nat := 8

/-- The place of the second source register. -/
def second : Nat := 12

/-- The place of the third source register. -/
def third : Nat := 24

/-- The place of the destination register of a long form. -/
def destination : Nat := 28

/-- The four bits that encode a register. -/
def registerField (offset : Nat) : Field := ⟨offset, 4⟩

/-- An immediate in one field. -/
def constant (offset width : Nat) : Source := immediate (Fragment.whole offset width)

end Source

open Source

/-! ### Layouts that ask the descriptor -/

/-- A declared destination, listed twice if the opcode reads it as well. -/
def destinationSources (d : Descriptor) : List Source :=
  declared destination :: if d.isTied then [again] else []

/-- Whether the first operand is declared a register. A descriptor that declares nothing cannot
order the operands. -/
def leadsWithRegister (d : Descriptor) : Except DecodeError Bool :=
  match d.operand? 0 with
  | some (.register _) => .ok true
  | some .immediate => .ok false
  | none => .error (.undeclaredRegister 0)

/-- Absolute addressing: a load names its register first, a store names the address first and may
have no register. -/
def absoluteLayout (d : Descriptor) : Except DecodeError (List Source) :=
  (leadsWithRegister d).map fun
    | true => [declared first, immediate Fragment.offset18]
    | false => immediate Fragment.offset18 ::
        if 1 < d.operands.length then [declared first] else []

/-- A sixteen-bit constant: the destination comes first and may be followed by a source register,
unless the constant leads. -/
def longConstantLayout (d : Descriptor) : Except DecodeError (List Source) :=
  (leadsWithRegister d).map fun
    | true => declared destination ::
        ((if d.operands.length = 3 then [declared first] else []) ++ [constant 12 16])
    | false => [constant 12 16, declared destination]

/-! ### All layouts -/

/-- The sources of the operands of a format, in order. -/
def layout (f : Format) (d : Descriptor) : Except DecodeError (List Source) :=
  match f with
  | sb | sc => .ok [constant 8 8]
  | sbr => .ok [data second, constant 8 4]
  | sr => .ok [data first, data first]
  | src => .ok [declared first, constant 12 4]
  | srr => .ok [declared first, declared second]
  | slr => .ok [data first, data second]
  | slro | ssro => .ok [data first, constant 12 4]
  | sro => .ok [constant 8 4, data second]
  | srrs => .ok [declared first, declared second, constant 6 2]
  | sbc | sbrn => .ok [constant 8 4, constant 12 4]
  | ssr => .ok [declared second, declared first]
  | abs => absoluteLayout d
  | absb => .ok [data first, immediate Fragment.offset18]
  | b => .ok [immediate Fragment.displacement24]
  | bo => .ok [declared first, declared second, immediate Fragment.offset10]
  | bol => .ok [declared first, declared second, immediate Fragment.offset16]
  | rc => .ok (destinationSources d ++ [declared first, constant 12 9])
  | rcpw => .ok [declared destination, declared first, constant 12 4, constant 23 5, constant 16 5]
  | rlc => longConstantLayout d
  | rr => .ok (destinationSources d ++ [declared first, declared second, constant 16 2])
  | rr2 => .ok [data destination, data first, data second]
  | rrpw => .ok [data destination, data first, data second, constant 23 5, constant 16 5]
  | sys => .ok [data first]
  | rrr2 | rrrr => .ok [data destination, data first, data second, data third]
  | rrr1 | rrr => .ok [data destination, data first, data second, constant 16 2, data third]
  | bit => .ok [data destination, data first, data second, constant 16 5, constant 23 5]
  | rr1 => .ok [data destination, data first, data second, constant 16 2]
  | rcr => .ok [data destination, data first, constant 12 9, data third]
  | rrrw => .ok [data destination, data first, data second, constant 16 5, data third]
  | rcrr => .ok [data destination, data first, constant 12 4, data third]
  | rcrw => .ok [data destination, data first, constant 12 4, constant 16 5, data third]
  | brr => .ok [data first, data second, constant 16 15]
  | brc => .ok [data first, constant 12 4, constant 16 15]
  | brn => .ok [data first, immediate Fragment.bitNumber, constant 16 15]

end TriCore.Format
