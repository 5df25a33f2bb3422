import TriCore.Word.Read

/-!
# Words at the start of a byte string

A word is fetched exactly when the byte string begins with its bytes. The lowest bit of the first
byte is the width selector of every word that can be fetched there, so two words at the same place
have the same selector.

## Main definitions

* `Width.selected?` : the width that the first byte of a byte string selects.

## Main results

* `Word.fetch_eq_ok_iff` : a word is fetched when the byte string begins with its bytes.
* `Word.fetch_of_take` : bytes behind the fourth do not change the word.
* `Word.fetch_eq_error_iff` : a word is missing when the byte string is shorter.
* `Word.selected?_eq_some` : the selector of a word is that of the bytes it is fetched from.
-/

namespace TriCore

/-- The width that the first byte of a byte string selects by its lowest bit. -/
def Width.selected? : List UInt8 → Option Width
  | [] => none
  | first :: _ => some (if first.toBitVec.getLsbD 0 then .long else .short)

namespace Word

theorem toBytes_short_append (b₀ b₁ : UInt8) :
    (short (b₁.toBitVec ++ b₀.toBitVec)).toBytes = [b₀, b₁] := by
  simp only [toBytes, byte, Width.bytes, short, List.range, List.range.loop, List.map_cons,
    List.map_nil, List.cons.injEq, ← UInt8.toBitVec_inj, and_true]
  refine ⟨?_, ?_⟩ <;>
  · refine BitVec.eq_of_getLsbD_eq fun i hi => ?_
    simp only [BitVec.getLsbD_extractLsb', BitVec.getLsbD_setWidth, BitVec.getLsbD_append, hi,
      decide_true, Bool.true_and]
    generalize b₀.toBitVec.getLsbD = bit₀, b₁.toBitVec.getLsbD = bit₁
    grind

theorem toBytes_long_append (b₀ b₁ b₂ b₃ : UInt8) :
    (long (b₃.toBitVec ++ b₂.toBitVec ++ b₁.toBitVec ++ b₀.toBitVec)).toBytes =
      [b₀, b₁, b₂, b₃] := by
  simp only [toBytes, byte, Width.bytes, long, List.range, List.range.loop, List.map_cons,
    List.map_nil, List.cons.injEq, ← UInt8.toBitVec_inj, and_true]
  refine ⟨?_, ?_, ?_, ?_⟩ <;>
  · refine BitVec.eq_of_getLsbD_eq fun i hi => ?_
    simp only [BitVec.getLsbD_extractLsb', BitVec.getLsbD_append, hi, decide_true, Bool.true_and]
    generalize b₀.toBitVec.getLsbD = bit₀, b₁.toBitVec.getLsbD = bit₁,
      b₂.toBitVec.getLsbD = bit₂, b₃.toBitVec.getLsbD = bit₃
    grind

/-- A word is fetched from a byte string exactly when the byte string begins with its bytes. -/
theorem fetch_eq_ok_iff {width : Width} {bytes : List UInt8} {w : Word} :
    fetch width bytes = .ok w ↔ w.width = width ∧ w.toBytes <+: bytes := by
  constructor
  · intro h
    unfold fetch at h
    split at h
    case h_1 b₀ b₁ rest =>
      cases h
      exact ⟨rfl, rest, by rw [toBytes_short_append]; rfl⟩
    case h_2 b₀ b₁ b₂ b₃ rest =>
      cases h
      exact ⟨rfl, rest, by rw [toBytes_long_append]; rfl⟩
    case h_3 => cases h
  · rintro ⟨rfl, rest, rfl⟩
    exact fetch_toBytes_append w rest

/-- No word is longer than four bytes, so those decide which word is fetched. -/
theorem fetch_of_take {width : Width} {bytes bytes' : List UInt8} {w : Word}
    (h : fetch width bytes = .ok w) (hbegins : bytes.take 4 <+: bytes') :
    fetch width bytes' = .ok w := by
  obtain ⟨hwidth, hword⟩ := fetch_eq_ok_iff.mp h
  have hlength : w.toBytes.length ≤ 4 := by
    rw [length_toBytes]
    cases w.width <;> decide
  have hfour : w.toBytes <+: bytes.take 4 := List.prefix_take_iff.mpr ⟨hword, hlength⟩
  exact fetch_eq_ok_iff.mpr ⟨hwidth, hfour.trans hbegins⟩

/-- A word is missing exactly when the byte string is shorter than the word. -/
theorem fetch_eq_error_iff {width : Width} {bytes : List UInt8} {halt : Halt} :
    fetch width bytes = .error halt ↔
      bytes.length < width.bytes ∧
        halt = .rejected (.insufficientData width.bytes bytes.length) := by
  unfold fetch
  split
  case h_1 b₀ b₁ rest =>
    simp only [Width.bytes, List.length_cons, reduceCtorEq, false_iff, not_and]
    omega
  case h_2 b₀ b₁ b₂ b₃ rest =>
    simp only [Width.bytes, List.length_cons, reduceCtorEq, false_iff, not_and]
    omega
  case h_3 hshort hlong =>
    have missing : bytes.length < width.bytes := by
      cases width with
      | short =>
        rcases bytes with _ | ⟨b₀, _ | ⟨b₁, rest⟩⟩
        · simp [Width.bytes]
        · simp [Width.bytes]
        · exact (hshort b₀ b₁ rest rfl rfl).elim
      | long =>
        rcases bytes with _ | ⟨b₀, _ | ⟨b₁, _ | ⟨b₂, _ | ⟨b₃, rest⟩⟩⟩⟩
        · simp [Width.bytes]
        · simp [Width.bytes]
        · simp [Width.bytes]
        · simp [Width.bytes]
        · exact (hlong b₀ b₁ b₂ b₃ rest rfl rfl).elim
    simp only [Except.error.injEq, missing, true_and, eq_comm]

/-- A word of a width is found in every byte string that is long enough. -/
theorem exists_fetch_eq_ok {width : Width} {bytes : List UInt8}
    (h : width.bytes ≤ bytes.length) : ∃ w, fetch width bytes = .ok w := by
  cases hfetch : fetch width bytes with
  | ok w => exact ⟨w, rfl⟩
  | error halt => exact absurd (fetch_eq_error_iff.mp hfetch).1 (Nat.not_lt.mpr h)

theorem length_le_of_prefix {w : Word} {bytes : List UInt8} (h : w.toBytes <+: bytes) :
    w.width.bytes ≤ bytes.length := w.length_toBytes ▸ h.length_le

theorem length_le_of_fetch_eq_ok {width : Width} {bytes : List UInt8} {w : Word}
    (h : fetch width bytes = .ok w) : width.bytes ≤ bytes.length := by
  obtain ⟨rfl, hprefix⟩ := fetch_eq_ok_iff.mp h
  exact length_le_of_prefix hprefix

/-- The width selector of a word is that of every byte string that begins with its bytes. -/
theorem selected?_eq_some {w : Word} {bytes : List UInt8} (h : w.toBytes <+: bytes) :
    Width.selected? bytes = some (if w.isLongForm then .long else .short) := by
  obtain ⟨rest, rfl⟩ := h
  have first : ∃ tail, w.toBytes = w.byte 0 :: tail := by
    obtain ⟨width, bits, fits⟩ := w
    cases width <;> exact ⟨_, rfl⟩
  obtain ⟨tail, htail⟩ := first
  have selector : (w.byte 0).toBitVec.getLsbD 0 = w.isLongForm := by
    simp [byte, isLongForm]
  rw [htail, List.cons_append, Width.selected?, selector]

end Word

end TriCore
