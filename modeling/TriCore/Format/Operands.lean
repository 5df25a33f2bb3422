import TriCore.Format.Layout
import TriCore.Instruction
import TriCore.RegisterFile
import TriCore.Word.Read

/-!
# Collecting the operands of a format

The operands of a word are collected source by source behind the operands that a draft already has.
The slot that an operand fills is the number of operands before it, and a descriptor-driven register
takes the class declared for that slot. A source that fails ends the collection, and the operands
before it stay in the draft. Nothing is collected from a word whose width or width selector
contradicts the format.

## Main definitions

* `Format.Source.operand?` : the operand that a source yields, if any.
* `Format.collect` : the operands of a list of sources.
* `Format.decode` : the operands of a format.
-/

namespace TriCore.Format

/-- What the operands of a word depend on besides the word itself. -/
structure Context where
  registers : RegisterFile
  descriptor : Descriptor

/-- Collected operands, and whether the collection came to its end. -/
structure Collected where
  draft : Draft
  result : Except Halt Unit

namespace Source

/-- A rejection as the reason to stop. -/
def orReject {α : Type} : Except DecodeError α → Except Halt α := Except.mapError .rejected

/-- The operand that a source yields behind the operands `before`. A repeated operand needs one
before it and is otherwise left out. -/
def operand? (context : Context) (w : Word) (before : List Operand) :
    Source → Except Halt (Option Operand)
  | data offset => do
    let raw ← w.read (registerField offset)
    let register ← orReject (context.registers.resolve .data raw)
    return some (.register .data register)
  | declared offset => do
    let raw ← w.read (registerField offset)
    let slot := before.length
    let found ← orReject
      (context.registers.resolveSlot (context.descriptor.operand? slot) slot raw)
    return some (.register found.1 found.2)
  | again => return before.getLast?
  | immediate pieces => do
    let value ← w.gather pieces
    return some (.ofField value (Fragment.totalWidth pieces))

end Source

/-- The operands of the sources, collected in order behind those of the draft. -/
def collect (context : Context) (w : Word) : List Source → Draft → Collected
  | [], draft => ⟨draft, .ok ()⟩
  | source :: sources, draft =>
    match source.operand? context w draft.operands with
    | .error halt => ⟨draft, .error halt⟩
    | .ok operand => collect context w sources (draft.append operand.toList)

/-- A word can only have the format `f` if it has its width and its width selector agrees. -/
def Fits (f : Format) (w : Word) : Prop :=
  w.width = f.width ∧ w.isLongForm = decide (f.width = .long)

instance (f : Format) (w : Word) : Decidable (f.Fits w) := inferInstanceAs (Decidable (_ ∧ _))

/-- The operands of a word in the format `f`, collected behind those of the draft. -/
def decode (f : Format) (context : Context) (w : Word) (draft : Draft) : Collected :=
  if f.Fits w then
    match f.layout context.descriptor with
    | .ok sources => collect context w sources draft
    | .error error => ⟨draft, .error (.rejected error)⟩
  else
    ⟨draft, .error (.rejected (.widthMismatch f.width))⟩

end TriCore.Format
