import TriCore.Proofs.Sweep.Concatenation

/-!
# Sweeps over programs

Words that lie one behind the other, short and long ones in any order, form a program. A decoder
that decodes each of them decodes the whole program into their instructions: an attempt that begins
with a word ends with it, since the word that is found there is decoded whatever lies behind it, and
the next attempt begins with the next word.

## Main definitions

* `Word.program` : the bytes of words that lie one behind the other.
* `Decoder.Decodes` : the decoder decodes a word into an instruction, at some address.

## Main results

* `Sweep.next?_of_word` : an attempt that begins with a word.
* `Sweep.map_attempts_program` : the attempts over a program.
* `Decoder.decodeAll_program` : a program is decoded into the instructions of its words.
-/

namespace TriCore

namespace Word

/-- The bytes of words that lie one behind the other. -/
def program (words : List Word) : List UInt8 := words.flatMap toBytes

theorem program_cons (w : Word) (words : List Word) :
    program (w :: words) = w.toBytes ++ program words := rfl

theorem length_program_take_succ (w : Word) (words : List Word) (k : Nat) :
    (program ((w :: words).take (k + 1))).length =
      w.width.bytes + (program (words.take k)).length := by
  rw [List.take_succ_cons, program_cons, List.length_append, length_toBytes]

end Word

/-- The decoder decodes the word into the instruction, at some address. -/
def Decoder.Decodes (d : Decoder) (w : Word) (i : Instruction) : Prop :=
  ∃ address, d.decodeWord w address = .ok i

namespace Sweep

variable {s : Sweep} {words : List Word} {instructions : List Instruction}

/-- An attempt that begins with a word that is decoded gives the instruction of the word, and leads
to the place behind the word. -/
theorem next?_of_word (hd : s.decoder.TablesInRange) {w : Word} {i : Instruction}
    {address : UInt64} {more : List UInt8} (hw : s.decoder.decodeWord w address = .ok i)
    (hrest : s.rest = w.toBytes ++ more) :
    ∃ a, s.next? = some (a, { s with rest := more, offset := s.offset + w.width.bytes }) ∧
      a.offset = s.offset ∧ a.step = w.width.bytes ∧ a.result = .ok (i.movedTo s.address) := by
  have hword : s.decoder.decodeWord w s.address = .ok (i.movedTo s.address) := by
    rw [s.decoder.decodeWord_movedTo w address, hw, Except.map]
  have hresult : s.attempt.result = .ok (i.movedTo s.address) := by
    rw [result_attempt, hrest]
    exact Decoder.decode_of_decodeWord_eq_ok hd (List.prefix_append ..) hword
  have hstep : s.attempt.step = w.width.bytes := by
    rw [step_attempt, hresult, stepAfter, Instruction.size,
      (Decoder.decodeWord_eq_ok hd hword).1]
  have hne : s.rest ≠ [] := by
    have hpos := w.width.bytes_pos
    rw [← w.length_toBytes] at hpos
    rw [hrest]
    exact List.append_ne_nil_of_left_ne_nil (List.length_pos_iff.mp hpos) more
  have hadvance : s.advance s.attempt.step =
      { s with rest := more, offset := s.offset + w.width.bytes } := by
    rw [advance, hstep, hrest, ← w.length_toBytes, List.drop_left]
  exact ⟨s.attempt, next?_eq_some_iff.mpr ⟨hne, rfl, hadvance⟩, rfl, hstep, hresult⟩

/-- The attempts over a program begin and end with its words, and give their instructions, each at
its address. -/
theorem map_attempts_program (hd : s.decoder.TablesInRange)
    (h : List.Forall₂ s.decoder.Decodes words instructions) (hrest : s.rest = Word.program words) :
    (s.attempts.map (·.result) = (instructions.mapIdx fun k i => i.movedTo
      (s.base + UInt64.ofNat (s.offset + (Word.program (words.take k)).length))).map .ok) ∧
    s.attempts.map (fun a => (a.offset, a.step)) = words.mapIdx fun k w =>
      (s.offset + (Word.program (words.take k)).length, w.width.bytes) := by
  generalize hdecoder : s.decoder = d at h
  induction h generalizing s with
  | nil =>
    rw [attempts_of_next?_eq_none (next?_eq_none_iff.mpr hrest)]
    exact ⟨rfl, rfl⟩
  | @cons w i words instructions hw _ ih =>
    obtain ⟨address, hw⟩ := hw
    rw [Word.program_cons] at hrest
    obtain ⟨a, hnext, hoffset, hstep, hresult⟩ := next?_of_word hd (hdecoder ▸ hw) hrest
    obtain ⟨results, places⟩ := ih
      (s := { s with rest := Word.program words, offset := s.offset + w.width.bytes })
      hd rfl hdecoder
    simp only [attempts_of_next?_eq_some hnext, List.map_cons, List.mapIdx_cons, hoffset, hstep,
      hresult, results, places, Word.length_program_take_succ, Nat.add_assoc]
    exact ⟨rfl, rfl⟩

end Sweep

namespace Decoder

/-- **A program is decoded into the instructions of its words.** A decoder assembled from any parts
whose tables read no field outside a word decodes a program, of words that it decodes one by one,
into their instructions in order. The instruction of each word carries the address that many bytes
behind the program's as there are before the word. The attempts of the sweep are as many as the
words, and each of them begins and ends with its word. -/
theorem decodeAll_program {registers : RegisterFile} {descriptors : DescriptorTable}
    {short long : Decision.Table} {features : Features} {d : Decoder}
    (hd : ofParts registers descriptors short long features = .ok d)
    (hshort : short.InRange) (hlong : long.InRange) {words : List Word}
    {instructions : List Instruction} (h : List.Forall₂ d.Decodes words instructions)
    (base : UInt64) :
    d.decodeAll (Word.program words) base = .ok (instructions.mapIdx fun k i =>
      i.movedTo (base + UInt64.ofNat (Word.program (words.take k)).length)) ∧
    (d.sweep (Word.program words) base).map (fun a => (a.offset, a.step)) =
      words.mapIdx fun k w => ((Word.program (words.take k)).length, w.width.bytes) := by
  have inRange : d.TablesInRange := tablesInRange_of_ofParts hd hshort hlong
  obtain ⟨results, places⟩ := Sweep.map_attempts_program
    (s := Sweep.start d (Word.program words) base) inRange h rfl
  simp only [Sweep.start, Nat.zero_add] at results places
  exact ⟨decodeAll_eq_ok_iff.mpr results, places⟩

/-- Two short branches around a long one, at addresses that wrap around. -/
theorem decodeAll_program_branches :
    let words : List Word := [.short 0x043C, .long 0x0010001D, .short 0x0546]
    let instructions : List Instruction :=
      [⟨.jSb, [.immediate 4 8], .short, 0⟩, ⟨.jB, [.immediate 0x10 24], .long, 0⟩,
        ⟨.notSr, [.register .data ⟨22⟩, .register .data ⟨22⟩], .short, 0⟩]
    let d : Decoder := standard .all
    ofParts .standard .standard .short .long .all = .ok d ∧
      Decision.Table.short.InRange ∧ Decision.Table.long.InRange ∧
      List.Forall₂ d.Decodes words instructions ∧
      d.decodeAll [0x3C, 0x04, 0x1D, 0x00, 0x10, 0x00, 0x46, 0x05] 0xFFFFFFFFFFFFFFFE =
        .ok [⟨.jSb, [.immediate 4 8], .short, 0xFFFFFFFFFFFFFFFE⟩,
          ⟨.jB, [.immediate 0x10 24], .long, 0⟩,
          ⟨.notSr, [.register .data ⟨22⟩, .register .data ⟨22⟩], .short, 4⟩] := by
  intro words instructions d
  have hparts : ofParts .standard .standard .short .long .all = .ok d := rfl
  obtain ⟨hshort, hlong⟩ := tablesInRange_standard .all
  have hwords : List.Forall₂ d.Decodes words instructions :=
    .cons ⟨0, rfl⟩ (.cons ⟨0, rfl⟩ (.cons ⟨0, rfl⟩ .nil))
  have hbytes : Word.program words = [0x3C, 0x04, 0x1D, 0x00, 0x10, 0x00, 0x46, 0x05] := by
    decide
  have hall := (decodeAll_program hparts hshort hlong hwords 0xFFFFFFFFFFFFFFFE).1
  rw [hbytes] at hall
  exact ⟨hparts, hshort, hlong, hwords, hall.trans (congrArg Except.ok (by decide))⟩

end Decoder

end TriCore
