import Mathlib.Data.List.Nodup
import TriCore.Opcode
import TriCore.Proofs.Text.Words
import TriCore.Register
import TriCore.Word

/-!
# Names

Opcodes, register classes and widths are listed by their names. Every name is a word that begins
with a capital letter, and no two things of one kind have the same name. That the names of opcodes
differ is found out by computation: each name is read as one number, and no number occurs twice.

## Main results

* `Opcode.name_injective`, `RegisterClass.name_injective`, `Width.name_injective`.
* `Opcode.isWord_name`, `Opcode.exists_head_name` : the names of opcodes are words that begin with a
  capital letter.
-/

namespace TriCore

open Text

/-! ### Numbers that all differ -/

/-- No number of a list occurs twice. -/
def distinct : List Nat → Bool
  | [] => true
  | n :: ns => ns.all (fun m => !(n.beq m)) && distinct ns

theorem nodup_of_distinct : {ns : List Nat} → distinct ns = true → ns.Nodup
  | [], _ => .nil
  | n :: ns, h => by
    rw [distinct, Bool.and_eq_true, List.all_eq_true] at h
    refine List.nodup_cons.mpr ⟨fun hn => ?_, nodup_of_distinct h.2⟩
    have := h.1 n hn
    simp at this

/-! ### Opcodes -/

namespace Opcode

/-- The name of an opcode, read as the digits of a number. -/
def nameCode (o : Opcode) : Nat :=
  o.name.toByteArray.data.toList.foldl (fun n b => 256 * n + b.toNat) 0

theorem nodup_nameCode : (all.map nameCode).Nodup := nodup_of_distinct (by decide +kernel)

/-- No two opcodes have the same name. -/
theorem name_injective : Function.Injective name := fun o p h =>
  List.inj_on_of_nodup_map nodup_nameCode o.mem_all p.mem_all
    (congrArg (fun s => s.toByteArray.data.toList.foldl (fun n b => 256 * n + b.toNat) 0) h)

theorem exists_letters (o : Opcode) :
    ∃ c cs, o.name = String.ofList (c :: cs) ∧ c.isUpper = true ∧ IsWord (c :: cs) := by
  cases o <;> exact ⟨_, _, rfl, by decide, by decide⟩

/-- The name of an opcode begins with a capital letter. -/
theorem exists_head_name (o : Opcode) :
    ∃ c cs, o.name.toList = c :: cs ∧ c.isUpper = true := by
  obtain ⟨c, cs, hname, hc, -⟩ := o.exists_letters
  exact ⟨c, cs, by rw [hname, String.toList_ofList], hc⟩

theorem isWord_name (o : Opcode) : IsWord o.name.toList := by
  obtain ⟨c, cs, hname, -, hword⟩ := o.exists_letters
  rwa [hname, String.toList_ofList]

end Opcode

/-! ### Register classes and widths -/

theorem RegisterClass.name_injective : Function.Injective name := fun cls cls' h => by
  cases cls <;> cases cls' <;> simp [name] at h ⊢

theorem RegisterClass.isWord_name (cls : RegisterClass) : IsWord cls.name.toList := by
  cases cls <;> decide

theorem Width.name_injective : Function.Injective name := fun w w' h => by
  cases w <;> cases w' <;> simp [name] at h ⊢

theorem Width.isWord_name (w : Width) : IsWord w.name.toList := by
  cases w <;> decide

end TriCore
