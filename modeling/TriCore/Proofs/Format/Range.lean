import TriCore.Format.Operands

/-!
# The fields of the formats

A format asks its descriptor little: whether the destination is tied, what slot `0` is declared to
be, and how many operands there are. So it has a handful of layouts, and what is true of all of them
can be checked on each. Every field and every piece that a layout reads lies inside a word of the
format's width. A source is therefore never a fault: it yields its operand or rejects the word.

## Main definitions

* `Field.Inside`, `Fragment.Inside`, `Format.Source.Inside` : what is read lies inside a word of the
  given width.
* `Format.Source.InRange` : the fields that a source reads can be read.
* `Format.layouts` : the layouts that a format has for any descriptor.
* `Format.Source.attempt` : what a source in range yields, as a function of the bits.

## Main results

* `Format.Source.operand?_eq_attempt` : the operand of a source in range.
* `Format.mem_layouts` : every layout is one of the finitely many.
* `Format.inside_of_layout` : the sources of every layout lie inside the words of the format.
* `Format.decode_ne_fault` : reading the operands of a format does not fault.
-/

namespace TriCore

/-! ### Inside a word -/

/-- A field lies inside the words of a width when it is not empty and ends within their bits. -/
def Field.Inside (f : Field) (width : Width) : Prop := 0 < f.width ∧ f.offset + f.width ≤ width.bits

instance (f : Field) (width : Width) : Decidable (f.Inside width) :=
  inferInstanceAs (Decidable (_ ∧ _))

theorem Field.Inside.inRange {f : Field} {width : Width} (h : f.Inside width) : f.InRange :=
  ⟨h.1, Nat.le_trans h.2 width.bits_le⟩

/-- A piece of an operand lies inside the words of a width, and none of it is lost when it is put
into its place in the operand. -/
def Fragment.Inside (piece : Fragment) (width : Width) : Prop :=
  piece.field.Inside width ∧ piece.shift + piece.field.width ≤ 32

instance (piece : Fragment) (width : Width) : Decidable (piece.Inside width) :=
  inferInstanceAs (Decidable (_ ∧ _))

end TriCore

namespace TriCore.Format

open Source

namespace Source

/-! ### Sources in range -/

/-- What a source reads lies inside the words of a width. -/
def Inside (width : Width) : Source → Prop
  | data offset | declared offset => (registerField offset).Inside width
  | again => True
  | immediate pieces => ∀ piece ∈ pieces, piece.Inside width

instance (width : Width) : (source : Source) → Decidable (source.Inside width)
  | data offset | declared offset =>
    inferInstanceAs (Decidable ((registerField offset).Inside width))
  | again => .isTrue trivial
  | immediate pieces => inferInstanceAs (Decidable (∀ piece ∈ pieces, piece.Inside width))

/-- The fields that a source reads can be read. -/
def InRange : Source → Prop
  | data offset | declared offset => (registerField offset).InRange
  | again => True
  | immediate pieces => ∀ piece ∈ pieces, piece.field.InRange

instance : (source : Source) → Decidable source.InRange
  | data offset | declared offset => inferInstanceAs (Decidable (registerField offset).InRange)
  | again => .isTrue trivial
  | immediate pieces => inferInstanceAs (Decidable (∀ piece ∈ pieces, piece.field.InRange))

theorem Inside.inRange {width : Width} {source : Source} (h : source.Inside width) :
    source.InRange := by
  cases source with
  | data offset | declared offset => exact Field.Inside.inRange h
  | again => trivial
  | immediate pieces => exact fun piece hpiece => (h piece hpiece).1.inRange

/-- What a source in range yields for the given bits, behind the operands `before`. -/
def attempt (context : Context) (bits : BitVec 32) (before : List Operand) :
    Source → Except DecodeError (Option Operand)
  | data offset =>
    (context.registers.resolve .data ((registerField offset).extract bits)).map fun register =>
      some (.register .data register)
  | declared offset =>
    (context.registers.resolveSlot (context.descriptor.operand? before.length) before.length
      ((registerField offset).extract bits)).map fun found => some (.register found.1 found.2)
  | again => .ok before.getLast?
  | immediate pieces =>
    .ok (some (.ofField (Fragment.gather pieces bits) (Fragment.totalWidth pieces)))

theorem orReject_bind_pure {α β : Type} (attempt : Except DecodeError α) (f : α → β) :
    (orReject attempt >>= fun a => pure (f a)) = orReject (attempt.map f) := by
  cases attempt <;> rfl

/-- A source in range yields what is computed from the bits alone, and reads no other field. -/
theorem operand?_eq_attempt {source : Source} (h : source.InRange) (context : Context) (w : Word)
    (before : List Operand) :
    source.operand? context w before = orReject (source.attempt context w.bits before) := by
  cases source with
  | data offset =>
    simp only [operand?, attempt, Word.read_of_inRange w h]
    exact orReject_bind_pure _ fun register => some (Operand.register .data register)
  | declared offset =>
    simp only [operand?, attempt, Word.read_of_inRange w h]
    exact orReject_bind_pure _ fun found : RegisterClass × Register =>
      some (Operand.register found.1 found.2)
  | again => rfl
  | immediate pieces =>
    simp only [operand?, attempt, Word.gather_of_inRange w h]
    rfl

theorem orReject_ne_fault {α : Type} (attempt : Except DecodeError α) (field : Field) :
    orReject attempt ≠ .error (.fault field) := by
  intro h
  cases attempt with
  | error error => cases h
  | ok value => cases h

end Source

/-! ### The layouts of a format -/

/-- Descriptors of every shape that a layout asks for. -/
def shapes : List Descriptor :=
  [.plain, .tied].flatMap fun declare =>
    [[], [.data], [.data, .data, .data], [.immediate], [.immediate, .immediate]].map declare

/-- The layouts that a format has for any descriptor. -/
def layouts (f : Format) : List (List Source) := shapes.filterMap fun d => (f.layout d).toOption

/-- Every descriptor gives all formats the layouts that one of the shapes gives them. -/
theorem exists_shape (d : Descriptor) :
    ∃ shape ∈ shapes, ∀ f : Format, f.layout d = f.layout shape := by
  obtain ⟨operands, tied⟩ := d
  have same (shape : List OperandKind)
      (habs : absoluteLayout ⟨operands, tied⟩ = absoluteLayout ⟨shape, tied⟩)
      (hrlc : longConstantLayout ⟨operands, tied⟩ = longConstantLayout ⟨shape, tied⟩) (f : Format) :
      f.layout ⟨operands, tied⟩ = f.layout ⟨shape, tied⟩ := by
    cases f
    case abs => exact habs
    case rlc => exact hrlc
    all_goals rfl
  rcases operands with _ | ⟨cls | -, rest⟩
  · exact ⟨⟨[], tied⟩, by cases tied <;> decide, same [] rfl rfl⟩
  · by_cases hthree : rest.length + 1 = 3
    · refine ⟨⟨[.data, .data, .data], tied⟩, by cases tied <;> decide, same _ rfl ?_⟩
      simp [longConstantLayout, leadsWithRegister, Descriptor.operand?, hthree]
    · refine ⟨⟨[.data], tied⟩, by cases tied <;> decide, same _ rfl ?_⟩
      simp [longConstantLayout, leadsWithRegister, Descriptor.operand?, hthree]
  · by_cases hone : 1 < rest.length + 1
    · refine ⟨⟨[.immediate, .immediate], tied⟩, by cases tied <;> decide, same _ ?_ rfl⟩
      simp [absoluteLayout, leadsWithRegister, Descriptor.operand?, hone]
    · refine ⟨⟨[.immediate], tied⟩, by cases tied <;> decide, same _ ?_ rfl⟩
      simp [absoluteLayout, leadsWithRegister, Descriptor.operand?, hone]

/-- Every layout of a format is one of the finitely many. -/
theorem mem_layouts {f : Format} {d : Descriptor} {sources : List Source}
    (h : f.layout d = .ok sources) : sources ∈ f.layouts := by
  obtain ⟨shape, hshape, hsame⟩ := exists_shape d
  rw [hsame f] at h
  exact List.mem_filterMap.mpr ⟨shape, hshape, by rw [h]; rfl⟩

/-! ### Layouts in range -/

/-- Operands that are collected from sources in range are collected or rejected. -/
theorem collect_ne_fault (context : Context) (w : Word) (field : Field) (sources : List Source)
    (h : ∀ source ∈ sources, source.InRange) (draft : Draft) :
    (collect context w sources draft).result ≠ .error (.fault field) := by
  induction sources generalizing draft with
  | nil => simp [collect]
  | cons source sources ih =>
    have tail := ih fun source hs => h source (List.mem_cons_of_mem _ hs)
    rw [collect, Source.operand?_eq_attempt (h source List.mem_cons_self)]
    cases hattempt : Source.orReject (source.attempt context w.bits draft.operands) with
    | ok operand => exact tail _
    | error halt =>
      intro hfault
      cases hfault
      exact Source.orReject_ne_fault _ field hattempt

theorem inside_layouts (f : Format) :
    ∀ sources ∈ f.layouts, ∀ source ∈ sources, source.Inside f.width := by
  cases f <;> decide

/-- The sources of every layout lie inside the words of the format, whatever the descriptor. -/
theorem inside_of_layout {f : Format} {d : Descriptor} {sources : List Source}
    (h : f.layout d = .ok sources) : ∀ source ∈ sources, source.Inside f.width :=
  inside_layouts f sources (mem_layouts h)

theorem inRange_of_layout {f : Format} {d : Descriptor} {sources : List Source}
    (h : f.layout d = .ok sources) : ∀ source ∈ sources, source.InRange :=
  fun source hsource => (inside_of_layout h source hsource).inRange

/-- Reading the operands of a format succeeds or rejects the word. -/
theorem decode_ne_fault (f : Format) (context : Context) (w : Word) (draft : Draft)
    (field : Field) : (f.decode context w draft).result ≠ .error (.fault field) := by
  unfold decode
  split
  case isTrue =>
    cases hlayout : f.layout context.descriptor with
    | error error => simp
    | ok sources => exact collect_ne_fault context w field sources (inRange_of_layout hlayout) draft
  case isFalse => simp

end TriCore.Format
