import TriCore.Opcode.Descriptor
import TriCore.Proofs.Replacements

/-!
# Entries of a table of descriptors

A table of descriptors is a row of slots that grows when an opcode behind its end is given a
descriptor. Growing leaves gaps, which are no entries. So all that can be seen of a table is the
descriptor of each opcode, and an insertion changes one of them and no other. What a list of
insertions does is known from this: the last entry for an opcode counts, wherever in the row its
slot lies and however long the row was before.

## Main results

* `DescriptorTable.get_insertAll_eq_replaced` : insertions replace descriptors one after the other.
* `DescriptorTable.get_insertAll` : a table of descriptors is a map.
-/

namespace TriCore.DescriptorTable

variable (table : DescriptorTable) (entries : List (Opcode × Descriptor))

/-- An insertion changes the descriptor of one opcode and no other. -/
theorem get_insert_eq_update (o : Opcode) (descriptor : Descriptor) :
    (table.insert o descriptor).get = Function.update table.get o descriptor := by
  ext1 o'
  rw [get_insert, Function.update_apply]

/-- Insertions replace descriptors one after the other. -/
theorem get_insertAll_eq_replaced : (table.insertAll entries).get = replaced table.get entries :=
  foldl_eq_replaced get_insert_eq_update table entries

theorem get_insertAll_iff {o : Opcode} {descriptor : Descriptor} :
    (table.insertAll entries).get o = descriptor ↔
      InForce table.get entries o descriptor := by
  rw [get_insertAll_eq_replaced, inForce_iff]

theorem insertAll_insertAll (entries' : List (Opcode × Descriptor)) :
    (table.insertAll entries).insertAll entries' = table.insertAll (entries ++ entries') :=
  List.foldl_append.symm

/-- **A table of descriptors is a map.** The descriptor of an opcode is the one that was inserted
last for it. If none was inserted, it is the one that the opcode had before: no operands in a table
without entries, the last one given in a table of entries, and the architecture's descriptor in the
standard table. Insertions for other opcodes do not count, and insertions for different opcodes may
change places. -/
theorem get_insertAll (table : DescriptorTable) (entries : List (Opcode × Descriptor))
    (o : Opcode) :
    (∀ descriptor, (table.insertAll entries).get o = descriptor ↔
      InForce table.get entries o descriptor) ∧
    (∀ descriptor, (empty.insertAll entries).get o = descriptor ↔
      InForce (fun _ => .empty) entries o descriptor) ∧
    (∀ given descriptor, ((ofList given).insertAll entries).get o = descriptor ↔
      InForce (fun _ => .empty) (given ++ entries) o descriptor) ∧
    (∀ descriptor, (standard.insertAll entries).get o = descriptor ↔
      InForce Opcode.descriptor entries o descriptor) ∧
    (table.insertAll (entries.filter fun entry => entry.1 = o)).get o =
      (table.insertAll entries).get o ∧
    ∀ (before after : List (Opcode × Descriptor)) (entry entry' : Opcode × Descriptor),
      entry.1 ≠ entry'.1 →
      (table.insertAll (before ++ entry :: entry' :: after)).get o =
        (table.insertAll (before ++ entry' :: entry :: after)).get o := by
  have hempty : empty.get = fun _ => .empty := funext get_empty
  have hstandard : standard.get = Opcode.descriptor := funext get_standard
  refine ⟨fun _ => get_insertAll_iff table entries, fun _ => ?_, fun given _ => ?_, fun _ => ?_, ?_,
    fun before after entry entry' hne => ?_⟩
  · rw [get_insertAll_iff, hempty]
  · rw [ofList, insertAll_insertAll, get_insertAll_iff, hempty]
  · rw [get_insertAll_iff, hstandard]
  · rw [get_insertAll_eq_replaced, get_insertAll_eq_replaced, replaced_filter]
  · rw [get_insertAll_eq_replaced, get_insertAll_eq_replaced, replaced_exchange hne]

/-- The last opcode of all is inserted first, so that the row grows to its full length at once. The
first opcode is then given two descriptors, of which the second counts, and the opcodes between are
left without one. -/
theorem get_insertAll_lastFirst :
    Opcode.jnzTBrn ≠ Opcode.jSb ∧
      (empty.insertAll [(.jnzTBrn, .plain [.data]), (.jSb, .tied [.data, .data]),
        (.jSb, .plain [.immediate])]).get .jSb = .plain [.immediate] ∧
      (empty.insertAll [(.jnzTBrn, .plain [.data]), (.jSb, .tied [.data, .data]),
        (.jSb, .plain [.immediate])]).get .callSb = .empty ∧
      (empty.insertAll [(.jnzTBrn, .plain [.data]), (.jSb, .tied [.data, .data]),
        (.jSb, .plain [.immediate])]).get .jnzTBrn =
        (empty.insertAll [(.jSb, .tied [.data, .data]), (.jnzTBrn, .plain [.data]),
          (.jSb, .plain [.immediate])]).get .jnzTBrn := by
  have hne : Opcode.jnzTBrn ≠ Opcode.jSb := by decide
  refine ⟨hne, ?_, ?_, ?_⟩
  · exact ((get_insertAll empty _ .jSb).1 _).mpr
      (.inl ⟨[(.jnzTBrn, .plain [.data]), (.jSb, .tied [.data, .data])], [], rfl, by simp⟩)
  · exact ((get_insertAll empty _ .callSb).2.1 _).mpr (.inr ⟨by simp, rfl⟩)
  · exact (get_insertAll empty [] .jnzTBrn).2.2.2.2.2 [] [(.jSb, .plain [.immediate])]
      (.jnzTBrn, .plain [.data]) (.jSb, .tied [.data, .data]) hne

end TriCore.DescriptorTable
