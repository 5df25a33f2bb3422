import Mathlib.Logic.ExistsUnique
import TriCore.Proofs.Decoder.WidthSelector
import TriCore.Sweep

/-!
# A sweep tiles its buffer

The attempts of a sweep lie one behind the other, from the front of the buffer to its end. What
keeps a sweep inside the buffer is that an instruction is never longer than the bytes it was decoded
from, whatever the tables are; what keeps it at even places is that every step is two or four bytes
long, except for the last byte of an odd buffer. Everything here follows from what one attempt can
do (`Sweep.attempt_cases`), from what a step preserves (`Sweep.Within.next`) and from one induction
over the attempts.

## Main definitions

* `Sweep.after` : the place of a sweep after a number of further calls.
* `Sweep.Within` : a place that a sweep over a buffer can reach.
* `Attempt.Tile` : attempts that lie one behind the other.
* `Sweep.Tiling` : what is said of the attempts over a buffer.

## Main results

* `Sweep.attempt_cases` : what one attempt can do.
* `Sweep.tile_attempts`, `Sweep.exists_place_of_mem` : the attempts lie one behind the other, and
  each is made at a place within the buffer.
* `Sweep.next?_after` : the attempts are what the calls yield, one by one.
* `Decoder.sweep_tiles` : the attempts of a sweep tile the buffer.
-/

namespace TriCore

/-- An instruction is no longer than the bytes it was decoded from. -/
theorem Decoder.size_le_of_decode_eq_ok {d : Decoder} (hd : d.TablesInRange) {bytes : List UInt8}
    {address : UInt64} {i : Instruction} (h : d.decode bytes address = .ok i) :
    i.size ≤ bytes.length := by
  obtain ⟨w, hw, hword⟩ := exists_word_of_decode_eq_ok h
  rw [Instruction.size, (decodeWord_eq_ok hd hword).1]
  exact Word.length_le_of_prefix hw

/-! ### Attempts that lie one behind the other -/

namespace Attempt

/-- The attempts lie one behind the other, from the place `start` to the place `stop`. -/
def Tile : (start : Nat) → List Attempt → (stop : Nat) → Prop
  | start, [], stop => start = stop
  | start, a :: attempts, stop =>
    a.offset = start ∧ a.offset < a.nextOffset ∧ Tile a.nextOffset attempts stop

variable {start stop : Nat} {attempts : List Attempt} {a b : Attempt}

theorem Tile.start_le_stop : {start stop : Nat} → {attempts : List Attempt} →
    Tile start attempts stop → start ≤ stop
  | _, _, [], h => Nat.le_of_eq h
  | _, _, _ :: _, ⟨hstart, hlt, h⟩ => by
    have := h.start_le_stop
    omega

theorem Tile.bounds (h : Tile start attempts stop) (ha : a ∈ attempts) :
    start ≤ a.offset ∧ a.offset < a.nextOffset ∧ a.nextOffset ≤ stop := by
  induction attempts generalizing start with
  | nil => cases ha
  | cons first attempts ih =>
    obtain ⟨hstart, hlt, htail⟩ := h
    rcases List.mem_cons.mp ha with rfl | ha
    · exact ⟨Nat.le_of_eq hstart.symm, hlt, htail.start_le_stop⟩
    · obtain ⟨hle, hlt', hstop⟩ := ih htail ha
      exact ⟨by omega, hlt', hstop⟩

/-- Each attempt ends before the next one begins. -/
theorem Tile.pairwise (h : Tile start attempts stop) :
    attempts.Pairwise fun a b => a.nextOffset ≤ b.offset := by
  induction attempts generalizing start with
  | nil => exact .nil
  | cons first attempts ih =>
    obtain ⟨-, -, htail⟩ := h
    exact .cons (fun b hb => (htail.bounds hb).1) (ih htail)

/-- Each attempt begins where the one before it ended. -/
theorem Tile.map_offset_append (h : Tile start attempts stop) :
    attempts.map offset ++ [stop] = start :: attempts.map nextOffset := by
  induction attempts generalizing start with
  | nil =>
    obtain rfl : start = stop := h
    rfl
  | cons first attempts ih =>
    obtain ⟨rfl, -, htail⟩ := h
    rw [List.map_cons, List.cons_append, ih htail, List.map_cons]

theorem Tile.exists_mem (h : Tile start attempts stop) {k : Nat} (hstart : start ≤ k)
    (hstop : k < stop) : ∃ a ∈ attempts, a.offset ≤ k ∧ k < a.nextOffset := by
  induction attempts generalizing start with
  | nil =>
    obtain rfl : start = stop := h
    omega
  | cons first attempts ih =>
    obtain ⟨rfl, -, htail⟩ := h
    by_cases hk : k < first.nextOffset
    · exact ⟨first, List.mem_cons_self, hstart, hk⟩
    · obtain ⟨a, ha, hcovers⟩ := ih htail (Nat.le_of_not_lt hk)
      exact ⟨a, List.mem_cons_of_mem _ ha, hcovers⟩

/-- No place belongs to two attempts. -/
theorem Tile.eq_of_covers (h : Tile start attempts stop) {k : Nat} (ha : a ∈ attempts)
    (hb : b ∈ attempts) (hka : a.offset ≤ k ∧ k < a.nextOffset)
    (hkb : b.offset ≤ k ∧ k < b.nextOffset) : a = b := by
  have hpairwise := h.pairwise
  clear h
  induction attempts with
  | nil => cases ha
  | cons first attempts ih =>
    obtain ⟨hfirst, htail⟩ := List.pairwise_cons.mp hpairwise
    rcases List.mem_cons.mp ha with rfl | ha' <;> rcases List.mem_cons.mp hb with rfl | hb'
    · rfl
    · have := hfirst b hb'
      omega
    · have := hfirst a ha'
      omega
    · exact ih ha' hb' htail

theorem Tile.getLast?_eq (h : Tile start attempts stop) (ha : a ∈ attempts)
    (hstop : a.nextOffset = stop) : attempts.getLast? = some a := by
  induction attempts generalizing start with
  | nil => cases ha
  | cons first attempts ih =>
    obtain ⟨-, -, htail⟩ := h
    rcases List.mem_cons.mp ha with rfl | ha
    · cases attempts with
      | nil => rfl
      | cons second attempts =>
        have := htail.bounds List.mem_cons_self
        omega
    · rw [List.getLast?_cons, ih htail ha]
      rfl

/-- Attempts of two bytes and more, of which the last may be shorter, are few. -/
theorem Tile.two_mul_length_le (h : Tile start attempts stop)
    (hlong : ∀ a ∈ attempts, 2 ≤ a.step ∨ a.nextOffset = stop) :
    start + 2 * attempts.length ≤ stop + 1 := by
  induction attempts generalizing start with
  | nil => exact Nat.le_succ_of_le h.start_le_stop
  | cons first attempts ih =>
    obtain ⟨rfl, hlt, htail⟩ := h
    have hrest := ih htail fun a ha => hlong a (List.mem_cons_of_mem _ ha)
    rw [List.length_cons]
    cases attempts with
    | nil =>
      have := htail.start_le_stop
      rw [List.length_nil]
      omega
    | cons second attempts =>
      have hsecond := htail.bounds List.mem_cons_self
      have hstep := hlong first List.mem_cons_self
      simp only [nextOffset] at *
      omega

end Attempt

namespace Sweep

variable {s t : Sweep} {a : Attempt} {bytes : List UInt8}

/-! ### One call -/

theorem next?_eq_none_iff : s.next? = none ↔ s.rest = [] := by
  unfold next?
  cases s.rest <;> simp

theorem next?_eq_some_iff :
    s.next? = some (a, t) ↔ s.rest ≠ [] ∧ s.attempt = a ∧ s.advance a.step = t := by
  unfold next?
  cases hrest : s.rest with
  | nil => simp
  | cons b rest =>
    simp only [List.isEmpty_cons, Bool.false_eq_true, if_false, Option.some.injEq, Prod.mk.injEq,
      ne_eq, reduceCtorEq, not_false_eq_true, true_and]
    exact ⟨fun ⟨ha, ht⟩ => ⟨ha, ha ▸ ht⟩, fun ⟨ha, ht⟩ => ⟨ha, ha ▸ ht⟩⟩

theorem result_attempt (s : Sweep) : s.attempt.result = s.decoder.decode s.rest s.address := rfl

theorem step_attempt (s : Sweep) :
    s.attempt.step = stepAfter s.attempt.result s.rest.length := rfl

/-- What one attempt can do: use up the only byte that is left, skip two bytes or decode a short
instruction, or decode a long instruction. -/
theorem attempt_cases (hd : s.decoder.TablesInRange) (hrest : s.rest ≠ []) :
    (s.attempt.step = 1 ∧ s.rest.length = 1 ∧
      s.attempt.result = .error (.rejected (.insufficientData 2 1))) ∨
    (s.attempt.step = 2 ∧ 2 ≤ s.rest.length) ∨
    (s.attempt.step = 4 ∧ 4 ≤ s.rest.length ∧
      ∃ i, s.attempt.result = .ok i ∧ i.width = .long) := by
  have hpos : 0 < s.rest.length := List.length_pos_iff.mpr hrest
  cases hresult : s.attempt.result with
  | ok i =>
    have hsize := Decoder.size_le_of_decode_eq_ok hd (s.result_attempt.symm.trans hresult)
    have hstep : s.attempt.step = i.size := by rw [step_attempt, hresult, stepAfter]
    rw [hstep]
    unfold Instruction.size at hsize ⊢
    cases hwidth : i.width with
    | short =>
      rw [hwidth] at hsize
      exact .inr (.inl ⟨rfl, hsize⟩)
    | long =>
      rw [hwidth] at hsize
      exact .inr (.inr ⟨rfl, hsize, i, rfl, hwidth⟩)
  | error halt =>
    have hstep : s.attempt.step = min resyncStep s.rest.length := by
      rw [step_attempt, hresult, stepAfter]
    simp only [resyncStep] at hstep
    by_cases hone : s.rest.length = 1
    · have hmissing : Word.fetch .short s.rest = .error (.rejected (.insufficientData 2 1)) :=
        Word.fetch_eq_error_iff.mpr ⟨by rw [hone]; decide, by rw [hone]; rfl⟩
      rw [result_attempt, Decoder.decode_eq, hmissing] at hresult
      exact .inl ⟨by omega, hone, hresult.symm⟩
    · exact .inr (.inl ⟨by omega, by omega⟩)

/-! ### Places within a buffer -/

/-- A place that a sweep over `bytes` can reach: what is left are the bytes from this place on, and
the place is an even one unless the buffer is at its end. -/
structure Within (bytes : List UInt8) (s : Sweep) : Prop where
  rest_eq : s.rest = bytes.drop s.offset
  offset_le : s.offset ≤ bytes.length
  even : 2 ∣ s.offset ∨ s.offset = bytes.length

theorem Within.start (d : Decoder) (bytes : List UInt8) (base : UInt64) :
    (start d bytes base).Within bytes :=
  ⟨rfl, Nat.zero_le _, .inl (Nat.dvd_zero 2)⟩

theorem Within.length_rest (h : s.Within bytes) : s.rest.length = bytes.length - s.offset := by
  rw [h.rest_eq, List.length_drop]

theorem Within.offset_lt (h : s.Within bytes) (hrest : s.rest ≠ []) : s.offset < bytes.length := by
  have hpos : 0 < s.rest.length := List.length_pos_iff.mpr hrest
  rw [h.length_rest] at hpos
  omega

/-- A sweep that yields nothing more is at the end of its buffer. -/
theorem Within.offset_eq (h : s.Within bytes) (hnone : s.next? = none) :
    s.offset = bytes.length := by
  have hlength := h.length_rest
  rw [next?_eq_none_iff.mp hnone, List.length_nil] at hlength
  have := h.offset_le
  omega

/-- A step leads to a place within the buffer. -/
theorem Within.next (hd : s.decoder.TablesInRange) (h : s.Within bytes)
    (hnext : s.next? = some (a, t)) : t.Within bytes := by
  obtain ⟨hrest, rfl, rfl⟩ := next?_eq_some_iff.mp hnext
  have hlt := h.offset_lt hrest
  have hlength := h.length_rest
  have heven := h.even
  have hcases := attempt_cases hd hrest
  refine ⟨?_, ?_, ?_⟩
  · simp only [advance, h.rest_eq, List.drop_drop]
  · simp only [advance]
    omega
  · simp only [advance]
    omega

theorem decoder_eq_of_next? (hnext : s.next? = some (a, t)) :
    t.decoder = s.decoder ∧ t.base = s.base := by
  obtain ⟨-, -, rfl⟩ := next?_eq_some_iff.mp hnext
  exact ⟨rfl, rfl⟩

theorem offset_eq_of_next? (hnext : s.next? = some (a, t)) :
    a.offset = s.offset ∧ a.nextOffset = t.offset := by
  obtain ⟨-, rfl, rfl⟩ := next?_eq_some_iff.mp hnext
  exact ⟨rfl, rfl⟩

/-! ### All attempts -/

/-- The attempts from a place on lie one behind the other, up to the end of the buffer. -/
theorem tile_attempts (hd : s.decoder.TablesInRange) (h : s.Within bytes) :
    Attempt.Tile s.offset s.attempts bytes.length := by
  fun_induction attempts s with
  | case1 s hnone => exact h.offset_eq hnone
  | case2 s a t hnext ih =>
    have hpos : 0 < a.step := by
      obtain ⟨hrest, rfl, -⟩ := next?_eq_some_iff.mp hnext
      exact stepAfter_pos _ (List.length_pos_iff.mpr hrest)
    obtain ⟨hoffset, hstop⟩ := offset_eq_of_next? hnext
    have htail := ih ((decoder_eq_of_next? hnext).1 ▸ hd) (h.next hd hnext)
    exact ⟨hoffset, Nat.lt_add_of_pos_right hpos, hstop ▸ htail⟩

/-- Every attempt from a place on is made at a place within the buffer. -/
theorem exists_place_of_mem (hd : s.decoder.TablesInRange) (h : s.Within bytes)
    (ha : a ∈ s.attempts) :
    ∃ t : Sweep, t.Within bytes ∧ t.rest ≠ [] ∧ t.decoder = s.decoder ∧ t.base = s.base ∧
      t.attempt = a := by
  fun_induction attempts s with
  | case1 => cases ha
  | case2 s first t hnext ih =>
    rcases List.mem_cons.mp ha with rfl | ha
    · obtain ⟨hrest, hattempt, -⟩ := next?_eq_some_iff.mp hnext
      exact ⟨s, h, hrest, rfl, rfl, hattempt⟩
    · obtain ⟨hdecoder, hbase⟩ := decoder_eq_of_next? hnext
      obtain ⟨u, hu, hrest, hud, hub, hattempt⟩ := ih (hdecoder ▸ hd) (h.next hd hnext) ha
      exact ⟨u, hu, hrest, hud.trans hdecoder, hub.trans hbase, hattempt⟩

/-! ### One call after the other -/

/-- The place of a sweep after `n` further calls. At the end of the buffer it stays where it is. -/
def after (s : Sweep) : (n : Nat) → Sweep
  | 0 => s
  | n + 1 =>
    match s.next? with
    | none => s
    | some (_, t) => t.after n

theorem after_of_next?_eq_none (h : s.next? = none) (n : Nat) : s.after n = s := by
  cases n with
  | zero => rfl
  | succ n => rw [after, h]

/-- The attempts are what the calls yield, one by one, and then nothing. -/
theorem next?_after (s : Sweep) (n : Nat) : (s.after n).next?.map Prod.fst = s.attempts[n]? := by
  induction n generalizing s with
  | zero =>
    cases hnext : s.next? with
    | none => rw [after, hnext, attempts_of_next?_eq_none hnext]; rfl
    | some found =>
      obtain ⟨a, t⟩ := found
      rw [after, hnext, attempts_of_next?_eq_some hnext]; rfl
  | succ n ih =>
    cases hnext : s.next? with
    | none =>
      rw [after_of_next?_eq_none hnext, hnext, attempts_of_next?_eq_none hnext]; rfl
    | some found =>
      obtain ⟨a, t⟩ := found
      rw [after, hnext, attempts_of_next?_eq_some hnext, List.getElem?_cons_succ]
      exact ih t

/-- The call behind `n` calls leads to the place behind `n + 1` calls. -/
theorem after_succ {n : Nat} (hnext : (s.after n).next? = some (a, t)) : s.after (n + 1) = t := by
  induction n generalizing s with
  | zero =>
    rw [after] at hnext
    rw [after, hnext]
    rfl
  | succ n ih =>
    cases hfirst : s.next? with
    | none =>
      rw [after_of_next?_eq_none hfirst, hfirst] at hnext
      cases hnext
    | some found =>
      obtain ⟨b, u⟩ := found
      rw [after, hfirst] at hnext ⊢
      exact ih hnext

theorem Within.after (hd : s.decoder.TablesInRange) (h : s.Within bytes) (n : Nat) :
    (s.after n).Within bytes := by
  induction n generalizing s with
  | zero => exact h
  | succ n ih =>
    cases hnext : s.next? with
    | none => exact (after_of_next?_eq_none hnext (n + 1)).symm ▸ h
    | some found =>
      obtain ⟨a, t⟩ := found
      rw [Sweep.after, hnext]
      exact ih ((decoder_eq_of_next? hnext).1 ▸ hd) (h.next hd hnext)

/-! ### Sweeps over a buffer -/

/-- How the attempts of a sweep lie in its buffer, and what each of them does. -/
structure Tiling (d : Decoder) (bytes : List UInt8) (base : UInt64) (attempts : List Attempt) :
    Prop where
  /-- The first attempt begins at the front of the buffer, every other one where the one before it
  ended, and the last one ends with the buffer. -/
  chained : attempts.map Attempt.offset ++ [bytes.length] = 0 :: attempts.map Attempt.nextOffset
  ascending : attempts.Pairwise fun a b => a.offset < b.offset
  even : ∀ a ∈ attempts, 2 ∣ a.offset
  /-- An attempt decodes what is left of the buffer. Addresses wrap around. -/
  decodes : ∀ a ∈ attempts, a.address = base + UInt64.ofNat a.offset ∧
    a.result = d.decode (bytes.drop a.offset) a.address
  /-- An attempt uses up its instruction. -/
  advances : ∀ a ∈ attempts, ∀ i, a.result = .ok i → a.nextOffset = a.offset + i.size
  /-- An attempt that fails uses up two bytes, or one if there is only one left. -/
  skips : ∀ a ∈ attempts, ∀ halt, a.result = .error halt →
    a.nextOffset = a.offset + min 2 (bytes.length - a.offset)
  /-- Every byte belongs to exactly one attempt. -/
  covers : ∀ k < bytes.length, ∃! a, a ∈ attempts ∧ a.offset ≤ k ∧ k < a.nextOffset
  /-- An attempt is made at every halfword, unless a long instruction was decoded right before
  it. -/
  halfwords : ∀ k, 2 * k < bytes.length → (∃ a ∈ attempts, a.offset = 2 * k) ∨
    ∃ a ∈ attempts, ∃ i, a.result = .ok i ∧ i.width = .long ∧ a.offset + 2 = 2 * k
  length_le : attempts.length ≤ (bytes.length + 1) / 2
  /-- A step of one byte is the last one of an odd buffer. -/
  odd_of_step_eq_one : ∀ a ∈ attempts, a.step = 1 → attempts.getLast? = some a ∧
    bytes.length % 2 = 1 ∧ a.result = .error (.rejected (.insufficientData 2 1))

section Buffer

variable {d : Decoder} {base : UInt64} {n : Nat}

/-- An attempt of a sweep is made at a place within its buffer. -/
theorem exists_place (hd : d.TablesInRange) (ha : a ∈ d.sweep bytes base) :
    ∃ t : Sweep, t.Within bytes ∧ t.rest ≠ [] ∧ t.decoder = d ∧ t.base = base ∧ t.attempt = a :=
  exists_place_of_mem hd (.start d bytes base) ha

/-- What one attempt can do, and what it leaves of the buffer. -/
theorem cases_of_mem (hd : d.TablesInRange) (ha : a ∈ d.sweep bytes base) :
    2 ∣ a.offset ∧
      ((a.step = 1 ∧ a.nextOffset = bytes.length ∧
          a.result = .error (.rejected (.insufficientData 2 1))) ∨
        a.step = 2 ∨
        a.step = 4 ∧ ∃ i, a.result = .ok i ∧ i.width = .long) := by
  obtain ⟨t, ht, hrest, rfl, rfl, rfl⟩ := exists_place hd ha
  have hlt := ht.offset_lt hrest
  have hlength := ht.length_rest
  have hoffset : t.attempt.offset = t.offset := rfl
  refine ⟨ht.even.resolve_right (Nat.ne_of_lt hlt), ?_⟩
  rcases attempt_cases hd hrest with ⟨hstep, hone, hresult⟩ | ⟨hstep, -⟩ | ⟨hstep, -, hlong⟩
  · refine .inl ⟨hstep, ?_, hresult⟩
    rw [Attempt.nextOffset, hoffset, hstep]
    omega
  · exact .inr (.inl hstep)
  · exact .inr (.inr ⟨hstep, hlong⟩)

theorem tile_sweep (hd : d.TablesInRange) (bytes : List UInt8) (base : UInt64) :
    Attempt.Tile 0 (d.sweep bytes base) bytes.length :=
  tile_attempts hd (.start d bytes base)

theorem decodes_of_mem (hd : d.TablesInRange) (ha : a ∈ d.sweep bytes base) :
    a.address = base + UInt64.ofNat a.offset ∧
      a.result = d.decode (bytes.drop a.offset) a.address := by
  obtain ⟨t, ht, -, rfl, rfl, rfl⟩ := exists_place hd ha
  exact ⟨rfl, ht.rest_eq ▸ t.result_attempt⟩

theorem nextOffset_of_ok (hd : d.TablesInRange) (ha : a ∈ d.sweep bytes base) {i : Instruction}
    (hi : a.result = .ok i) : a.nextOffset = a.offset + i.size := by
  obtain ⟨t, -, -, rfl, rfl, rfl⟩ := exists_place hd ha
  rw [Attempt.nextOffset, step_attempt, hi, stepAfter]

theorem nextOffset_of_error (hd : d.TablesInRange) (ha : a ∈ d.sweep bytes base) {halt : Halt}
    (hhalt : a.result = .error halt) :
    a.nextOffset = a.offset + min 2 (bytes.length - a.offset) := by
  obtain ⟨t, ht, -, rfl, rfl, rfl⟩ := exists_place hd ha
  rw [Attempt.nextOffset, step_attempt, hhalt, stepAfter, ht.length_rest]
  rfl

/-- The attempt to which the first byte of a halfword belongs begins there, unless it decodes a
long instruction that begins one halfword before. -/
theorem exists_mem_halfword (hd : d.TablesInRange) {k : Nat} (hk : 2 * k < bytes.length) :
    (∃ a ∈ d.sweep bytes base, a.offset = 2 * k) ∨
      ∃ a ∈ d.sweep bytes base, ∃ i, a.result = .ok i ∧ i.width = .long ∧
        a.offset + 2 = 2 * k := by
  obtain ⟨a, ha, hle, hlt⟩ := (tile_sweep hd bytes base).exists_mem (2 * k).zero_le hk
  obtain ⟨heven, hcases⟩ := cases_of_mem hd ha
  rw [Attempt.nextOffset] at hlt
  by_cases hfirst : a.offset = 2 * k
  · exact .inl ⟨a, ha, hfirst⟩
  · rcases hcases with ⟨hstep, -⟩ | hstep | ⟨hstep, i, hi, hlong⟩
    · omega
    · omega
    · exact .inr ⟨a, ha, i, hi, hlong, by omega⟩

theorem length_sweep_le (hd : d.TablesInRange) (bytes : List UInt8) (base : UInt64) :
    (d.sweep bytes base).length ≤ (bytes.length + 1) / 2 := by
  have hfew := (tile_sweep hd bytes base).two_mul_length_le fun a ha => by
    rcases (cases_of_mem hd ha).2 with ⟨-, hstop, -⟩ | hstep | ⟨hstep, -⟩
    · exact .inr hstop
    · exact .inl (Nat.le_of_eq hstep.symm)
    · exact .inl (by omega)
  omega

theorem odd_of_step_eq_one (hd : d.TablesInRange) (ha : a ∈ d.sweep bytes base)
    (hstep : a.step = 1) :
    (d.sweep bytes base).getLast? = some a ∧ bytes.length % 2 = 1 ∧
      a.result = .error (.rejected (.insufficientData 2 1)) := by
  obtain ⟨heven, ⟨-, hstop, hresult⟩ | hstep' | ⟨hstep', -⟩⟩ := cases_of_mem hd ha
  · refine ⟨(tile_sweep hd bytes base).getLast?_eq ha hstop, ?_, hresult⟩
    rw [Attempt.nextOffset, hstep] at hstop
    omega
  · omega
  · omega

/-- The sweep of a buffer is a tiling of it. -/
theorem tiling (hd : d.TablesInRange) (bytes : List UInt8) (base : UInt64) :
    Tiling d bytes base (d.sweep bytes base) where
  chained := (tile_sweep hd bytes base).map_offset_append
  ascending := (tile_sweep hd bytes base).pairwise.imp_of_mem fun ha _ hle =>
    Nat.lt_of_lt_of_le ((tile_sweep hd bytes base).bounds ha).2.1 hle
  even _ ha := (cases_of_mem hd ha).1
  decodes _ ha := decodes_of_mem hd ha
  advances _ ha _ hi := nextOffset_of_ok hd ha hi
  skips _ ha _ hhalt := nextOffset_of_error hd ha hhalt
  covers k hk := by
    obtain ⟨a, ha, hcovers⟩ := (tile_sweep hd bytes base).exists_mem k.zero_le hk
    exact ⟨a, ⟨ha, hcovers⟩, fun b hb =>
      (tile_sweep hd bytes base).eq_of_covers hb.1 ha hb.2 hcovers⟩
  halfwords _ hk := exists_mem_halfword hd hk
  length_le := length_sweep_le hd bytes base
  odd_of_step_eq_one _ ha hstep := odd_of_step_eq_one hd ha hstep

/-- The call behind `n` calls yields the attempt at position `n`, from the place where it begins to
the place where it ends. -/
theorem after_eq (hn : (d.sweep bytes base)[n]? = some a) :
    ((start d bytes base).after n).next? = some (a, (start d bytes base).after (n + 1)) ∧
      ((start d bytes base).after n).offset = a.offset ∧
      ((start d bytes base).after (n + 1)).offset = a.nextOffset := by
  have hyields := (start d bytes base).next?_after n
  rw [← Decoder.sweep, hn] at hyields
  obtain ⟨⟨b, t⟩, hnext, rfl⟩ := Option.map_eq_some_iff.mp hyields
  obtain ⟨hoffset, hstop⟩ := offset_eq_of_next? hnext
  rw [after_succ hnext]
  exact ⟨hnext, hoffset.symm, hstop.symm⟩

/-- Behind the last attempt the calls yield nothing more, and the sweep stays at the end of the
buffer. -/
theorem after_end (hd : d.TablesInRange) (hn : (d.sweep bytes base).length ≤ n) :
    ((start d bytes base).after n).next? = none ∧
      ((start d bytes base).after n).offset = bytes.length := by
  have hnone : ((start d bytes base).after n).next? = none := by
    have hyields := (start d bytes base).next?_after n
    rw [← Decoder.sweep, List.getElem?_eq_none hn] at hyields
    exact Option.map_eq_none_iff.mp hyields
  exact ⟨hnone, ((Within.start d bytes base).after hd n).offset_eq hnone⟩

end Buffer

end Sweep

/-- **A sweep tiles its buffer.** For a decoder assembled from any parts whose tables read no field
outside a word, the calls of a sweep yield a list of attempts, one by one, that tile the buffer.
Each call moves the sweep from the place where its attempt begins to the place where it ends. All
further calls yield nothing, and the sweep stays at the end of the buffer. -/
theorem Decoder.sweep_tiles {registers : RegisterFile} {descriptors : DescriptorTable}
    {short long : Decision.Table} {features : Features} {d : Decoder}
    (hd : ofParts registers descriptors short long features = .ok d)
    (hshort : short.InRange) (hlong : long.InRange) (bytes : List UInt8) (base : UInt64) :
    Sweep.Tiling d bytes base (d.sweep bytes base) ∧
    (∀ n a, (d.sweep bytes base)[n]? = some a →
      ((Sweep.start d bytes base).after n).next? =
          some (a, (Sweep.start d bytes base).after (n + 1)) ∧
        ((Sweep.start d bytes base).after n).offset = a.offset ∧
        ((Sweep.start d bytes base).after (n + 1)).offset = a.nextOffset) ∧
    ∀ n, (d.sweep bytes base).length ≤ n →
      ((Sweep.start d bytes base).after n).next? = none ∧
        ((Sweep.start d bytes base).after n).offset = bytes.length := by
  have inRange : d.TablesInRange := tablesInRange_of_ofParts hd hshort hlong
  exact ⟨Sweep.tiling inRange bytes base, fun _ _ hn => Sweep.after_eq hn,
    fun _ hn => Sweep.after_end inRange hn⟩

/-- A long instruction, a halfword that is skipped and a single byte, at addresses that wrap around,
with tables that bind a long form to a short format. -/
theorem Decoder.sweep_tiles_misbound :
    let bytes : List UInt8 := [0x1D, 0x00, 0x40, 0x00, 0x00, 0x00, 0x1D]
    let base : UInt64 := 0xFFFFFFFFFFFFFFFC
    ofParts .standard .standard misboundShort branchLong .all = .ok misbound ∧
      misboundShort.InRange ∧ branchLong.InRange ∧
      (misbound.sweep bytes base).map (fun a => (a.offset, a.address, a.step)) =
        [(0, 0xFFFFFFFFFFFFFFFC, 4), (4, 0, 2), (6, 2, 1)] ∧
      Sweep.Tiling misbound bytes base (misbound.sweep bytes base) ∧
      ((Sweep.start misbound bytes base).after 5).next? = none ∧
      ((Sweep.start misbound bytes base).after 5).offset = 7 := by
  intro bytes base
  have hparts : ofParts .standard .standard misboundShort branchLong .all = .ok misbound := rfl
  have hshort : misboundShort.InRange := by decide
  have hlong : branchLong.InRange := by decide
  have hattempts : (misbound.sweep bytes base).map (fun a => (a.offset, a.address, a.step)) =
      [(0, 0xFFFFFFFFFFFFFFFC, 4), (4, 0, 2), (6, 2, 1)] := by decide +kernel
  obtain ⟨htiling, -, hend⟩ := sweep_tiles hparts hshort hlong bytes base
  have hlength : (misbound.sweep bytes base).length ≤ 5 := by
    rw [← List.length_map, hattempts]
    decide
  exact ⟨hparts, hshort, hlong, hattempts, htiling, hend 5 hlength⟩

end TriCore
