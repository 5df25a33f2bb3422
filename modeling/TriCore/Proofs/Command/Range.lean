import TriCore.Proofs.Command.Extent
import TriCore.Proofs.Command.Load
import TriCore.Proofs.Image.Window
import TriCore.Proofs.Listing.Shown

/-!
# Dumps of ranges

A range is dumped from the one segment that the payload of the input file is. If its start is not in
this segment, the range is not mapped. Otherwise the window is the part of the payload from the
start of the range to its end or to the end of the payload, and the attempts of the sweep over it
are listed with their bytes. These bytes are the window, none left out and none repeated. What is
delivered shows these entries, in the form that is asked for, and no others.

## Main definitions

* `Command.Bounds` : the two bounds of a range as addresses.
* `Command.requested` : the part of a payload that lies in a range.
* `Command.entriesOf`, `Command.Dump` : the entries of a range, and what is said of them.

## Main results

* `Command.rangeText_eq` : a range is listed by its entries, or it is not mapped.
* `Command.Dump.of_entriesOf` : the entries of a range are a dump of the requested part.
* `Command.range_dumps` : a run over a range delivers a dump, or the range is not mapped.
-/

namespace TriCore.Command

open FileTree

variable {base start stop : UInt64} {payload : List UInt8} {features : Features} {r : Range}

/-! ### The requested part -/

/-- The two bounds of a range as addresses. -/
structure Bounds (r : Range) (start stop : UInt64) : Prop where
  start_eq : readAddress r.start = .ok start
  stop_eq : readAddress r.stop = .ok stop
  le : start ≤ stop

/-- The part of a payload at the address `base` from the address `start` up to the address `stop`,
clipped to its end. -/
def requested (base : UInt64) (payload : List UInt8) (start stop : UInt64) : List UInt8 :=
  payload.extract (start - base).toNat
    (min stop (base + UInt64.ofNat payload.length) - base).toNat

theorem slice_segmentOf (base : UInt64) (payload : List UInt8) (start stop : UInt64) :
    (segmentOf base payload).slice start stop = requested base payload start stop := rfl

theorem contains_segmentOf_iff (hfits : (segmentOf base payload).Fits) :
    (segmentOf base payload).Contains start ↔
      base ≤ start ∧ start < base + UInt64.ofNat payload.length :=
  Segment.contains_iff hfits

theorem first_imageOf (h : (segmentOf base payload).Contains start) :
    (imageOf base payload).First start (segmentOf base payload) :=
  ⟨h, [], [], rfl, fun _ hr => absurd hr List.not_mem_nil⟩

theorem window_imageOf (hfits : (segmentOf base payload).Fits) (hle : start ≤ stop) :
    (imageOf base payload).window start stop =
      if base ≤ start ∧ start < base + UInt64.ofNat payload.length then
        some (requested base payload start stop)
      else none := by
  split
  case isTrue h =>
    rw [Image.window_eq_some hfits hle (first_imageOf ((contains_segmentOf_iff hfits).mpr h)),
      slice_segmentOf]
  case isFalse h =>
    refine (Image.window_eq_none_iff hle).mpr fun s hs => ?_
    obtain rfl : s = segmentOf base payload := List.mem_singleton.mp hs
    exact fun hcontains => h ((contains_segmentOf_iff hfits).mp hcontains)

/-- The requested part ends within the address space. -/
theorem add_length_requested_lt (hfits : (segmentOf base payload).Fits)
    (hstart : (segmentOf base payload).Contains start) (hle : start ≤ stop) :
    start.toNat + (requested base payload start stop).length < UInt64.size := by
  obtain ⟨hlow, hhigh⟩ := Segment.places_of_contains hfits hstart hle
  have hlength : (requested base payload start stop).length ≤
      min stop.toNat (segmentOf base payload).stop - base.toNat - (start.toNat - base.toNat) := by
    rw [← slice_segmentOf, Segment.slice, hlow, hhigh, List.extract_eq_take_drop, List.length_take]
    exact Nat.min_le_left _ _
  obtain ⟨hbase, hstop⟩ := hstart
  have hspace : (segmentOf base payload).stop < UInt64.size := hfits
  rw [UInt64.le_iff_toNat_le] at hle
  have hsegment : (segmentOf base payload).base.toNat = base.toNat := rfl
  omega

/-- What is behind a place in the requested part lies in the payload. -/
theorem drop_requested_isPrefix (base : UInt64) (payload : List UInt8) (start stop : UInt64)
    (k : Nat) : (requested base payload start stop).drop k <+:
      payload.drop ((start - base).toNat + k) := by
  rw [requested, List.extract_eq_take_drop, List.drop_take, List.drop_drop]
  exact List.take_prefix _ _

/-! ### What is listed of a range -/

theorem rangeWindow_eq (h : Bounds r start stop) (image : Image) :
    rangeWindow image r =
      match image.window start stop with
      | some bytes => .ok (start, bytes)
      | none => .error (.unmapped start) := by
  have hle : ¬ stop < start := UInt64.not_lt.mpr h.le
  rw [rangeWindow, h.start_eq, h.stop_eq]
  simp only [mapError_ok, Except.bind, bind, hle, if_false]
  cases image.window start stop <;> rfl

/-- The entries of a range whose start is in the payload. -/
def entriesOf (features : Features) (base : UInt64) (payload : List UInt8) (start stop : UInt64)
    (showBytes : Bool) : List Listing.Entry :=
  let window := requested base payload start stop
  ((Decoder.standard features).sweep window start).map (entry showBytes start window)

theorem rangeText_eq (h : Bounds r start stop) (hfits : (segmentOf base payload).Fits) :
    rangeText (imageOf base payload) features r =
      if base ≤ start ∧ start < base + UInt64.ofNat payload.length then
        .ok (listing r.form (entriesOf features base payload start stop r.showBytes))
      else .error (.unmapped start) := by
  rw [rangeText, rangeEntries, rangeWindow_eq h, window_imageOf hfits h.le]
  by_cases hstart : base ≤ start ∧ start < base + UInt64.ofNat payload.length
  · simp only [if_pos hstart]
    rfl
  · simp only [if_neg hstart]
    rfl

/-! ### Dumps -/

/-- The entries of a dump of the range from `start` to `stop`, of a payload at the address
`base`. -/
structure Dump (features : Features) (base : UInt64) (payload : List UInt8) (start stop : UInt64)
    (showBytes : Bool) (entries : List Listing.Entry) : Prop where
  /-- There is an entry for each attempt over the requested part. -/
  entries_eq : entries = entriesOf features base payload start stop showBytes
  /-- What is cut out of the requested part for an attempt lies within it. -/
  inBounds : ∀ a ∈ (Decoder.standard features).sweep (requested base payload start stop) start,
    start ≤ a.address ∧
      (extent start (requested base payload start stop) a).1 ≤
        (extent start (requested base payload start stop) a).2 ∧
      (extent start (requested base payload start stop) a).2 ≤
        (requested base payload start stop).length
  /-- Either every entry shows its bytes or none does. -/
  isSome_bytes : ∀ e ∈ entries, e.bytes.isSome = showBytes
  /-- The bytes that are shown are the requested part. -/
  flatMap_bytes : showBytes = true →
    entries.flatMap (fun e => e.bytes.getD []) = requested base payload start stop
  /-- An entry shows bytes that begin at its address. -/
  begins : ∀ e ∈ entries, ∀ bytes ∈ e.bytes,
    bytes ≠ [] ∧ base ≤ e.address ∧ bytes <+: payload.drop (e.address - base).toNat
  /-- The outcome of an entry is that of decoding the requested part from its address on. -/
  result : ∀ e ∈ entries, e.result = (Decoder.standard features).decode
    ((requested base payload start stop).drop (e.address - start).toNat) e.address

section Entries

variable {showBytes : Bool} {e : Listing.Entry}

/-- An entry of a range is that of an attempt over the requested part. -/
theorem exists_mem_of_mem_entriesOf
    (hsize : (requested base payload start stop).length ≤ UInt64.size)
    (he : e ∈ entriesOf features base payload start stop showBytes) :
    ∃ a ∈ (Decoder.standard features).sweep (requested base payload start stop) start,
      Listing.entry showBytes (requested base payload start stop) a = e := by
  obtain ⟨a, ha, rfl⟩ := List.mem_map.mp he
  exact ⟨a, ha, (entry_eq (Decoder.tablesInRange_standard features) hsize ha showBytes).symm⟩

/-- The bytes of all entries are the requested part. -/
theorem flatMap_bytes_entriesOf
    (hsize : (requested base payload start stop).length ≤ UInt64.size) :
    (entriesOf features base payload start stop true).flatMap (fun e => e.bytes.getD []) =
      requested base payload start stop := by
  have hd := Decoder.tablesInRange_standard features
  rw [entriesOf, List.map_congr_left fun a ha => entry_eq hd hsize ha true, List.flatMap_map]
  exact Listing.flatMap_chunk_sweep hd _ start

/-- The bytes of an attempt over the requested part are those of the payload at its address. -/
theorem chunk_isPrefix (hfits : (segmentOf base payload).Fits)
    (hstart : (segmentOf base payload).Contains start) (hle : start ≤ stop) {a : Attempt}
    (ha : a ∈ (Decoder.standard features).sweep (requested base payload start stop) start) :
    base ≤ a.address ∧ Listing.chunk (requested base payload start stop) a <+:
      payload.drop (a.address - base).toNat := by
  have haddress := toNat_address (Decoder.tablesInRange_standard features)
    (add_length_requested_lt hfits hstart hle) ha
  have hbase : base.toNat ≤ start.toNat := hstart.1
  have hbehind : base ≤ a.address := UInt64.le_iff_toNat_le.mpr (by omega)
  have hplace : (a.address - base).toNat = (start - base).toNat + a.offset := by
    rw [UInt64.toNat_sub_of_le _ _ hbehind,
      UInt64.toNat_sub_of_le _ _ (UInt64.le_iff_toNat_le.mpr hbase)]
    omega
  rw [hplace]
  exact ⟨hbehind, (List.take_prefix _ _).trans (drop_requested_isPrefix base payload start stop _)⟩

/-- The entries of a range are a dump of it. -/
theorem Dump.of_entriesOf (hfits : (segmentOf base payload).Fits)
    (hstart : (segmentOf base payload).Contains start) (hle : start ≤ stop) :
    Dump features base payload start stop showBytes
      (entriesOf features base payload start stop showBytes) := by
  have hd := Decoder.tablesInRange_standard features
  have hspace := add_length_requested_lt hfits hstart hle
  have hsize : (requested base payload start stop).length ≤ UInt64.size := by omega
  constructor
  case entries_eq => rfl
  case inBounds =>
    intro a ha
    have hbounds := (Sweep.tile_sweep hd _ start).bounds ha
    have haddress := toNat_address hd hspace ha
    rw [extent_eq hd hsize ha, UInt64.le_iff_toNat_le]
    exact ⟨by omega, Nat.le_of_lt hbounds.2.1, hbounds.2.2⟩
  case isSome_bytes =>
    intro e he
    obtain ⟨a, -, rfl⟩ := exists_mem_of_mem_entriesOf hsize he
    cases showBytes <;> rfl
  case flatMap_bytes =>
    rintro rfl
    exact flatMap_bytes_entriesOf hsize
  case begins =>
    intro e he bytes hbytes
    obtain ⟨a, ha, rfl⟩ := exists_mem_of_mem_entriesOf hsize he
    cases showBytes with
    | false => cases hbytes
    | true =>
      obtain rfl : Listing.chunk (requested base payload start stop) a = bytes :=
        Option.some.inj hbytes
      exact ⟨Listing.chunk_ne_nil hd ha, chunk_isPrefix hfits hstart hle ha⟩
  case result =>
    intro e he
    obtain ⟨a, ha, rfl⟩ := exists_mem_of_mem_entriesOf hsize he
    rw [Listing.entry, toNat_address_sub hd hsize ha]
    exact (Sweep.decodes_of_mem hd ha).2

end Entries

/-! ### Runs -/

theorem exists_bounds_of_rangeText_eq_ok {image : Image} {text : String}
    (h : rangeText image features r = .ok text) : ∃ start stop, Bounds r start stop := by
  rw [rangeText, rangeEntries, rangeWindow] at h
  cases hstart : readAddress r.start with
  | error e => simp [hstart, mapError_error, Except.map, bind, Except.bind] at h
  | ok start =>
    cases hstop : readAddress r.stop with
    | error e =>
      simp [hstart, hstop, mapError_ok, mapError_error, Except.map, bind, Except.bind] at h
    | ok stop =>
      by_cases hle : stop < start
      · simp [hstart, hstop, hle, mapError_ok, Except.map, bind, Except.bind] at h
      · exact ⟨start, stop, hstart, hstop, UInt64.not_lt.mp hle⟩

section Runs

variable {args : List String} {settings : Settings} {t : FileTree} {configuration : Configuration}

/-- A run over a range whose start is in the payload delivers a dump. -/
theorem run_of_mapped (hargs : Invocation.ofArguments args = .run settings (.range r))
    (hloads : Loads t settings payload configuration) (hbounds : Bounds r start stop)
    (hfits : (segmentOf settings.base payload).Fits)
    (hstart : settings.base ≤ start ∧ start < settings.base + UInt64.ofNat payload.length) :
    (run fileSystem args).run t = answer (deliver t r.out (listing r.form
      (entriesOf configuration.features settings.base payload start stop r.showBytes))) := by
  rw [run_of_ofArguments hargs, onTree_execute_of_loads hloads, carryOut,
    rangeText_eq hbounds hfits, if_pos hstart]

/-- A run over a range whose start is not in the payload fails. -/
theorem run_of_unmapped (hargs : Invocation.ofArguments args = .run settings (.range r))
    (hloads : Loads t settings payload configuration) (hbounds : Bounds r start stop)
    (hfits : (segmentOf settings.base payload).Fits)
    (hstart : ¬ (settings.base ≤ start ∧ start < settings.base + UInt64.ofNat payload.length)) :
    (run fileSystem args).run t = (⟨1, "", some (Failure.unmapped start).message⟩, t) := by
  rw [run_of_ofArguments hargs, onTree_execute_of_loads hloads, carryOut,
    rangeText_eq hbounds hfits, if_neg hstart]
  rfl

/-- A run over a range that succeeds has loaded what it needs and has understood the bounds. -/
theorem exists_loads_of_exitCode_eq_zero {outcome : Outcome} {t' : FileTree}
    (hargs : Invocation.ofArguments args = .run settings (.range r))
    (hrun : (run fileSystem args).run t = (outcome, t')) (hcode : outcome.exitCode = 0) :
    ∃ payload configuration start stop, Loads t settings payload configuration ∧
      Bounds r start stop := by
  rw [run_of_ofArguments hargs] at hrun
  rcases hdone : onTree t (execute fileSystem settings (.range r)) with ⟨failure | output, t''⟩
  · rw [hdone, answer, Prod.mk.injEq] at hrun
    rw [← hrun.1] at hcode
    cases hcode
  · obtain ⟨payload, configuration, hloads⟩ := exists_loads_of_onTree_eq_ok hdone
    rw [onTree_execute_of_loads hloads, carryOut] at hdone
    cases htext : rangeText (imageOf settings.base payload) configuration.features r with
    | error failure => simp [htext] at hdone
    | ok text =>
      obtain ⟨start, stop, hbounds⟩ := exists_bounds_of_rangeText_eq_ok htext
      exact ⟨payload, configuration, start, stop, hloads, hbounds⟩

/-- **A range is dumped exactly.** Consider a run over a range, on any tree of files. If it
succeeds, it has loaded a payload and a configuration and has understood the bounds of the range.
As long as the payload ends within the address space, what it delivers shows a dump of the range,
as text or as records, and no other entries: the bytes that are shown are the requested part of the
payload, none left out and none repeated, each entry shows the bytes at its address, and its outcome
is that of decoding there. Once all is loaded, the range is not mapped exactly if its start is not
in the payload, and a dump is delivered otherwise. -/
theorem range_dumps (hargs : Invocation.ofArguments args = .run settings (.range r))
    (t : FileTree) :
    (∀ outcome t', (run fileSystem args).run t = (outcome, t') → outcome.exitCode = 0 →
      ∃ payload configuration start stop, Loads t settings payload configuration ∧
        Bounds r start stop ∧ (settings.base.toNat + payload.length < UInt64.size →
          ∃ entries output, Dump configuration.features settings.base payload start stop
              r.showBytes entries ∧
            Listing.Presents r.form entries output ∧
            answer (deliver t r.out output) = (outcome, t'))) ∧
    ∀ payload configuration start stop, Loads t settings payload configuration →
      Bounds r start stop → settings.base.toNat + payload.length < UInt64.size →
        ((run fileSystem args).run t = (⟨1, "", some (Failure.unmapped start).message⟩, t) ↔
          ¬ (settings.base ≤ start ∧ start < settings.base + UInt64.ofNat payload.length)) ∧
        (settings.base ≤ start ∧ start < settings.base + UInt64.ofNat payload.length →
          ∃ entries output, Dump configuration.features settings.base payload start stop
              r.showBytes entries ∧
            Listing.Presents r.form entries output ∧
            (run fileSystem args).run t = answer (deliver t r.out output)) := by
  constructor
  · intro outcome t' hrun hcode
    obtain ⟨payload, configuration, start, stop, hloads, hbounds⟩ :=
      exists_loads_of_exitCode_eq_zero hargs hrun hcode
    refine ⟨payload, configuration, start, stop, hloads, hbounds, fun hfits => ?_⟩
    by_cases hstart : settings.base ≤ start ∧ start < settings.base + UInt64.ofNat payload.length
    · refine ⟨_, _, .of_entriesOf hfits ((contains_segmentOf_iff hfits).mpr hstart) hbounds.le,
        Listing.presents_listing r.form _, ?_⟩
      rw [← hrun, run_of_mapped hargs hloads hbounds hfits hstart]
    · rw [run_of_unmapped hargs hloads hbounds hfits hstart, Prod.mk.injEq] at hrun
      rw [← hrun.1] at hcode
      cases hcode
  · intro payload configuration start stop hloads hbounds hfits
    refine ⟨⟨fun hrun hstart => ?_, run_of_unmapped hargs hloads hbounds hfits⟩, fun hstart => ?_⟩
    · rw [run_of_mapped hargs hloads hbounds hfits hstart] at hrun
      exact answer_deliver_ne _ _ _ _ hrun
    · exact ⟨_, _, .of_entriesOf hfits ((contains_segmentOf_iff hfits).mpr hstart) hbounds.le,
        Listing.presents_listing r.form _, run_of_mapped hargs hloads hbounds hfits hstart⟩

end Runs

/-- A file of which the last byte is neither skipped nor loaded. -/
def shortFiles : FileTree := .workspace [("code.bin", [0xFF, 0x00, 0x90, 0x40, 0x0D, 0x7B])]

/-- The settings that load four bytes of the file behind the first one. -/
def shortSettings : Settings := ⟨"code.bin", 256, 1, some 4, none⟩

/-- The range from `start` on, which ends far behind the payload. -/
def openRange (start : String) (form : ListingForm) : Range := ⟨start, "0x200", true, form, none⟩

/-- The arguments that ask for such a range in the form with the given name. -/
def openArguments (start name : String) : List String :=
  ["--base", "256", "--skip", "1", "--len", "4", "code.bin", "range", start, "0x200",
    "--show-bytes", "--format", name]

/-- The last entry of the payload, for a byte that is too few. -/
def lastByte : Listing.Entry := ⟨259, some [0x0D], .error (.rejected (.insufficientData 2 1))⟩

/-- The entries of the payload from its second byte on. -/
def shortEntries : List Listing.Entry :=
  [⟨257, some [0x90, 0x40], .ok ⟨.addscASrrs,
    [.register .address ⟨1⟩, .register .address ⟨5⟩, .immediate 2 2], .short, 257⟩⟩, lastByte]

/-- The text that shows these entries. -/
def shortText : String :=
  "0x00000101: 90 40  AddscASrrs Addr#1, Addr#5, 0x2:2\n" ++
    "0x00000103: 0d  <insufficient data: need 2 bytes, have 1>\n"

/-- The record that shows the last entry, in an array. -/
def lastRecord : String :=
  "[\n  \x7b\n    \"address\": 259,\n    \"bytes\": \"0d\",\n" ++
    "    \"error\": \"insufficient data: need 2 bytes, have 1\"\n  \x7d\n]\n"

/-- A range from the second byte of the payload is dumped as two lines that show three bytes, and a
range from its last byte as one record. A range from behind the payload is not mapped. -/
theorem range_dumps_short :
    (Dump .all 256 [0x00, 0x90, 0x40, 0x0D] 257 512 true shortEntries ∧
      Listing.Presents .text shortEntries shortText ∧
      (run fileSystem (openArguments "0x101" "text")).run shortFiles =
        (⟨0, shortText, none⟩, shortFiles)) ∧
    (Dump .all 256 [0x00, 0x90, 0x40, 0x0D] 259 512 true [lastByte] ∧
      Listing.Presents .json [lastByte] lastRecord ∧
      (run fileSystem (openArguments "0x103" "json")).run shortFiles =
        (⟨0, lastRecord, none⟩, shortFiles)) ∧
    (run fileSystem (openArguments "0x104" "text")).run shortFiles =
      (⟨1, "", some (Failure.unmapped 260).message⟩, shortFiles) := by
  have hread : shortFiles.read "code.bin" = .ok [0xFF, 0x00, 0x90, 0x40, 0x0D, 0x7B] := by rfl
  have hloads : Loads shortFiles shortSettings [0x00, 0x90, 0x40, 0x0D] .complete :=
    ⟨⟨_, hread, by decide, by decide, rfl⟩, fun _ h => (nomatch h), fun _ => rfl⟩
  have hfits : (256 : UInt64).toNat + [0x00, 0x90, 0x40, (0x0D : UInt8)].length < UInt64.size := by
    decide
  have htext : Invocation.ofArguments (openArguments "0x101" "text") =
      .run shortSettings (.range (openRange "0x101" .text)) := by rfl
  have hjson : Invocation.ofArguments (openArguments "0x103" "json") =
      .run shortSettings (.range (openRange "0x103" .json)) := by rfl
  have hbehind : Invocation.ofArguments (openArguments "0x104" "text") =
      .run shortSettings (.range (openRange "0x104" .text)) := by rfl
  refine ⟨?_, ?_, ?_⟩
  · obtain ⟨entries, output, hdump, hpresents, hrun⟩ := ((range_dumps htext shortFiles).2 _ _ 257
      512 hloads ⟨rfl, rfl, by decide⟩ hfits).2 (by decide)
    obtain rfl : entries = shortEntries := hdump.entries_eq.trans (by decide +kernel)
    have hshows : Listing.Shows .text shortEntries shortText := by rfl
    obtain rfl : output = shortText :=
      String.toList_inj.mp (hpresents.shows.trans hshows.symm)
    exact ⟨hdump, hpresents, hrun⟩
  · obtain ⟨entries, output, hdump, hpresents, hrun⟩ := ((range_dumps hjson shortFiles).2 _ _ 259
      512 hloads ⟨rfl, rfl, by decide⟩ hfits).2 (by decide)
    have hentries : entriesOf .all 256 [0x00, 0x90, 0x40, 0x0D] 259 512 true = [lastByte] := by
      decide +kernel
    obtain rfl : entries = [lastByte] := hdump.entries_eq.trans hentries
    have hlisting : (run fileSystem (openArguments "0x103" "json")).run shortFiles =
        answer (deliver shortFiles none
          (listing .json (entriesOf .all 256 [0x00, 0x90, 0x40, 0x0D] 259 512 true))) :=
      run_of_mapped hjson hloads ⟨rfl, rfl, by decide⟩ hfits (by decide)
    have hrecord : listing .json [lastByte] = lastRecord := by rfl
    rw [hentries, hrecord] at hlisting
    obtain rfl : output = lastRecord := congrArg (·.1.output) (hrun.symm.trans hlisting)
    exact ⟨hdump, hpresents, hlisting⟩
  · exact ((range_dumps hbehind shortFiles).2 _ _ 260 512 hloads
      ⟨rfl, rfl, by decide⟩ hfits).1.mpr (by decide)

end TriCore.Command
