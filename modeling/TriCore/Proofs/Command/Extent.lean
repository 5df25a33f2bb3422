import TriCore.Command.Run
import TriCore.Proofs.Image.Window
import TriCore.Proofs.Sweep.Tiling

/-!
# The bytes of attempts

Two things have to agree on how many bytes an attempt has: the sweep, which goes on behind them, and
the listing, which cuts them out of the window. The listing counts two bytes for a failure, however
many are left, and clips them to the window. This is where the sweep goes on as well, so what is cut
out lies within the window, and the parts side by side are the window.

## Main results

* `Attempt.Tile.flatMap_extract` : the parts of a list that attempts cover are side by side.
* `Listing.flatMap_chunk_sweep` : the bytes that attempts use up are those of the buffer.
* `Command.extent_eq`, `Command.entry_eq` : an attempt over a range is listed with the bytes that it
  used up.
-/

namespace TriCore

/-- The parts of a list that attempts cover are side by side. -/
theorem Attempt.Tile.flatMap_extract {start stop : Nat} {attempts : List Attempt}
    (h : Tile start attempts stop) (bytes : List UInt8) :
    attempts.flatMap (fun a => bytes.extract a.offset a.nextOffset) =
      bytes.extract start stop := by
  induction attempts generalizing start with
  | nil =>
    obtain rfl : start = stop := h
    simp [List.extract_eq_take_drop]
  | cons first attempts ih =>
    obtain ⟨rfl, hlt, htail⟩ := h
    have hle := htail.start_le_stop
    have hsplit : stop - first.offset =
        (first.nextOffset - first.offset) + (stop - first.nextOffset) := by omega
    have hplace : first.offset + (first.nextOffset - first.offset) = first.nextOffset := by omega
    simp only [List.flatMap_cons, ih htail, List.extract_eq_take_drop]
    rw [hsplit, List.take_add, List.drop_drop, hplace]

theorem Listing.chunk_eq_extract (buffer : List UInt8) (a : Attempt) :
    chunk buffer a = buffer.extract a.offset a.nextOffset := by
  rw [chunk, List.extract_eq_take_drop, Attempt.nextOffset, Nat.add_sub_cancel_left]

/-- The bytes that the attempts of a sweep use up are those of the buffer, each of them once. -/
theorem Listing.flatMap_chunk_sweep {d : Decoder} (hd : d.TablesInRange) (buffer : List UInt8)
    (base : UInt64) : (d.sweep buffer base).flatMap (chunk buffer) = buffer := by
  have hchunk : chunk buffer = fun a => buffer.extract a.offset a.nextOffset :=
    funext fun a => chunk_eq_extract buffer a
  rw [hchunk, (Sweep.tile_sweep hd buffer base).flatMap_extract]
  simp [List.extract_eq_take_drop]

/-- An attempt uses up at least one byte. -/
theorem Listing.chunk_ne_nil {d : Decoder} {buffer : List UInt8} {base : UInt64} {a : Attempt}
    (hd : d.TablesInRange) (ha : a ∈ d.sweep buffer base) : chunk buffer a ≠ [] := by
  have hbounds := (Sweep.tile_sweep hd buffer base).bounds ha
  rw [chunk_eq_extract, List.extract_eq_take_drop, ← List.length_pos_iff, List.length_take,
    List.length_drop]
  omega

namespace Command

variable {d : Decoder} {start : UInt64} {window : List UInt8} {a : Attempt}

theorem toNat_address_sub (hd : d.TablesInRange) (hsize : window.length ≤ UInt64.size)
    (ha : a ∈ d.sweep window start) : (a.address - start).toNat = a.offset := by
  have hbounds := (Sweep.tile_sweep hd window start).bounds ha
  rw [(Sweep.decodes_of_mem hd ha).1, UInt64.add_comm, UInt64.add_sub_cancel, UInt64.toNat_ofNat']
  exact Nat.mod_eq_of_lt (by unfold UInt64.size at hsize; omega)

/-- Addresses do not wrap around where the window ends within the address space. -/
theorem toNat_address (hd : d.TablesInRange)
    (hspace : start.toNat + window.length < UInt64.size) (ha : a ∈ d.sweep window start) :
    a.address.toNat = start.toNat + a.offset := by
  have hbounds := (Sweep.tile_sweep hd window start).bounds ha
  rw [(Sweep.decodes_of_mem hd ha).1, toNat_add_ofNat (by omega)]

/-- An attempt is listed with the bytes from its place to the place of the next attempt. -/
theorem extent_eq (hd : d.TablesInRange) (hsize : window.length ≤ UInt64.size)
    (ha : a ∈ d.sweep window start) : extent start window a = (a.offset, a.nextOffset) := by
  have hbounds := (Sweep.tile_sweep hd window start).bounds ha
  have hlow := toNat_address_sub hd hsize ha
  cases hresult : a.result with
  | ok i =>
    have hnext := Sweep.nextOffset_of_ok hd ha hresult
    simp only [extent, hlow, hresult, Prod.mk.injEq, true_and]
    omega
  | error halt =>
    have hnext := Sweep.nextOffset_of_error hd ha hresult
    simp only [extent, hlow, hresult, Prod.mk.injEq, true_and]
    omega

/-- What is listed of an attempt over a range is what is listed of it over a buffer. -/
theorem entry_eq (hd : d.TablesInRange) (hsize : window.length ≤ UInt64.size)
    (ha : a ∈ d.sweep window start) (showBytes : Bool) :
    entry showBytes start window a = Listing.entry showBytes window a := by
  simp only [entry, extent_eq hd hsize ha, Listing.entry, Listing.chunk_eq_extract]

end Command

end TriCore
