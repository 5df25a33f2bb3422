import TriCore.Chart

/-!
# Patterns of the encoding chart

Read as a flat list, the chart is a set of patterns: an opcode belongs to the words in which one or
two fields have given values, provided that the features it needs are configured. The list knows
nothing of the order in which a table tests the fields.

## Main definitions

* `Chart.Pattern`, `Chart.Pattern.Recognises` : values of fields, and the words that have them.
* `Chart.patterns` : the patterns of the words of a width.
-/

namespace TriCore.Chart

/-- The values of the fields by which a candidate is recognised, and the features that it needs. -/
structure Pattern where
  fields : List (Field × BitVec 32)
  features : Features
  candidate : Candidate

/-- A word has the values of a pattern, and the features that the pattern needs are configured. -/
def Pattern.Recognises (p : Pattern) (w : Word) (features : Features) : Prop :=
  (∀ test ∈ p.fields, test.1.extract w.bits = test.2) ∧ features.Contains p.features

instance (p : Pattern) (w : Word) (features : Features) : Decidable (p.Recognises w features) :=
  inferInstanceAs (Decidable (_ ∧ _))

/-- The patterns of an entry. -/
def Entry.patterns : Entry → List Pattern
  | direct format opcodes =>
    opcodes.map fun entry => ⟨[(primaryField, entry.1)], .empty, ⟨entry.2, format⟩⟩
  | gated features primary format opcode =>
    [⟨[(primaryField, primary)], features, ⟨opcode, format⟩⟩]
  | secondary primary field format opcodes =>
    opcodes.map fun entry =>
      ⟨[(primaryField, primary), (field, entry.1)], .empty, ⟨entry.2, format⟩⟩

/-- The patterns of the words of a width. -/
def patterns : Width → List Pattern
  | .short =>
    ⟨[(⟨0, 6⟩, 0x10)], .empty, ⟨.addscASrrs, .srrs⟩⟩ :: shortEntries.flatMap Entry.patterns
  | .long =>
    ⟨[(⟨0, 7⟩, 0x6F), (⟨31, 1⟩, 0)], .empty, ⟨.jzTBrn, .brn⟩⟩ ::
      ⟨[(⟨0, 7⟩, 0x6F), (⟨31, 1⟩, 1)], .empty, ⟨.jnzTBrn, .brn⟩⟩ ::
        longEntries.flatMap Entry.patterns

end TriCore.Chart
