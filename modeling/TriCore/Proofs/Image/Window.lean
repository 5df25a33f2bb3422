import TriCore.Image

/-!
# Windows of an image

A window is cut out of the first segment that contains its start, and ends with the range or with
that segment, whichever comes first. Addresses have sixty-four bits. As long as every segment ends
within the address space, no sum of addresses wraps around, and the place of an address in its
segment is the distance from the base. Everything about windows then follows from the one slice that
a window is (`Image.window_eq_some`).

Where segments do not overlap, the first segment that contains an address is the only one. So a
range can be cut at any address of its window and both parts come from the same segment.

## Main definitions

* `Segment.Fits`, `Segment.limit`, `Segment.byte?` : a segment within the address space, the address
  behind it, and the byte at an address.
* `Segment.Shows` : the bytes of a segment between two addresses.
* `Image.First`, `Image.Disjoint` : the first segment that contains an address, and segments that do
  not overlap.

## Main results

* `Image.window_eq_none_iff`, `Image.window_eq_some` : when there is a window, and which bytes
  it is.
* `Image.window_append` : a window that is cut in two.
* `Image.window_exact` : a window holds the bytes of a range and no others.
-/

namespace TriCore

/-! ### Addresses -/

theorem toNat_min_address (a b : UInt64) : (min a b).toNat = min a.toNat b.toNat := by
  change (if a ≤ b then a else b).toNat = _
  split
  case isTrue h =>
    rw [UInt64.le_iff_toNat_le] at h
    omega
  case isFalse h =>
    rw [UInt64.le_iff_toNat_le] at h
    omega

/-- An address that is `i` bytes on, where that is an address still. -/
theorem toNat_add_ofNat {a : UInt64} {i : Nat} (h : a.toNat + i < UInt64.size) :
    (a + UInt64.ofNat i).toNat = a.toNat + i := by
  unfold UInt64.size at h
  rw [UInt64.toNat_add, UInt64.toNat_ofNat']
  omega

/-! ### Segments in the address space -/

namespace Segment

variable {s : Segment} {address start middle stop : UInt64} {bytes bytes' : List UInt8}

/-- The end of a segment is an address. -/
def Fits (s : Segment) : Prop := s.stop < UInt64.size

instance (s : Segment) : Decidable s.Fits := inferInstanceAs (Decidable (_ < _))

/-- The address behind a segment. -/
def limit (s : Segment) : UInt64 := s.base + UInt64.ofNat s.bytes.length

/-- The byte of a segment at an address. -/
def byte? (s : Segment) (address : UInt64) : Option UInt8 :=
  if s.Contains address then s.bytes[(address - s.base).toNat]? else none

/-- Some bytes are those of a segment from the address `start` up to the address `stop`. -/
structure Shows (s : Segment) (start stop : UInt64) (bytes : List UInt8) : Prop where
  length_eq : bytes.length = (stop - start).toNat
  contains : ∀ i < bytes.length, s.Contains (start + UInt64.ofNat i)
  byte : ∀ i < bytes.length, bytes[i]? = s.byte? (start + UInt64.ofNat i)

theorem toNat_limit (h : s.Fits) : s.limit.toNat = s.stop := toNat_add_ofNat h

theorem toNat_min_limit (h : s.Fits) (stop : UInt64) :
    (min stop s.limit).toNat = min stop.toNat s.stop := by
  rw [toNat_min_address, toNat_limit h]

theorem contains_iff (h : s.Fits) : s.Contains address ↔ s.base ≤ address ∧ address < s.limit := by
  rw [UInt64.le_iff_toNat_le, UInt64.lt_iff_toNat_lt, toNat_limit h]
  rfl

theorem Shows.unique (h : s.Shows start stop bytes) (h' : s.Shows start stop bytes') :
    bytes = bytes' := by
  have hlength : bytes.length = bytes'.length := h.length_eq.trans h'.length_eq.symm
  refine List.ext_getElem? fun i => ?_
  by_cases hi : i < bytes.length
  · rw [h.byte i hi, h'.byte i (hlength ▸ hi)]
  · rw [List.getElem?_eq_none (Nat.le_of_not_lt hi),
      List.getElem?_eq_none (hlength ▸ Nat.le_of_not_lt hi)]

/-- No address lies in both of two segments. -/
def Apart (r s : Segment) : Prop := ∀ address, ¬ (r.Contains address ∧ s.Contains address)

theorem apart_iff {r s : Segment} :
    r.Apart s ↔ min r.stop s.stop ≤ max r.base.toNat s.base.toNat := by
  constructor
  · intro h
    have hr := h r.base
    have hs := h s.base
    unfold Contains at hr hs
    omega
  · rintro h address ⟨⟨hr, hr'⟩, hs, hs'⟩
    omega

instance (r s : Segment) : Decidable (r.Apart s) := decidable_of_iff' _ apart_iff

/-- The bytes of a segment from the address `start` up to the address `stop`, clipped to its end. -/
def slice (s : Segment) (start stop : UInt64) : List UInt8 :=
  s.bytes.extract (start - s.base).toNat (min stop s.limit - s.base).toNat

/-- The two ends of a slice as places in the segment. -/
theorem places_of_contains (hfits : s.Fits) (hs : s.Contains start) (hle : start ≤ stop) :
    (start - s.base).toNat = start.toNat - s.base.toNat ∧
      (min stop s.limit - s.base).toNat = min stop.toNat s.stop - s.base.toNat := by
  obtain ⟨hbase, hstop⟩ := hs
  have hmin := toNat_min_limit hfits stop
  rw [UInt64.le_iff_toNat_le] at hle
  refine ⟨UInt64.toNat_sub_of_le _ _ (UInt64.le_iff_toNat_le.mpr hbase), ?_⟩
  rw [UInt64.toNat_sub_of_le _ _ (UInt64.le_iff_toNat_le.mpr (by omega)), hmin]

/-- A slice holds the bytes of its addresses. -/
theorem shows_slice (hfits : s.Fits) (hs : s.Contains start) (hle : start ≤ stop) :
    s.Shows start (min stop s.limit) (s.slice start stop) := by
  obtain ⟨hlow, hhigh⟩ := places_of_contains hfits hs hle
  have hmin := toNat_min_limit hfits stop
  have hspace : s.stop < UInt64.size := hfits
  have hends : s.stop = s.base.toNat + s.bytes.length := rfl
  obtain ⟨hbase, hstop⟩ := hs
  rw [UInt64.le_iff_toNat_le] at hle
  have hlength : (s.slice start stop).length = min stop.toNat s.stop - start.toNat := by
    rw [slice, List.extract_eq_take_drop, List.length_take, List.length_drop, hlow, hhigh]
    omega
  have hplace {i : Nat} (hi : i < (s.slice start stop).length) :
      (start + UInt64.ofNat i).toNat = start.toNat + i := toNat_add_ofNat (by omega)
  have hcontains (i : Nat) (hi : i < (s.slice start stop).length) :
      s.Contains (start + UInt64.ofNat i) := by
    have := hplace hi
    constructor <;> omega
  refine ⟨?_, hcontains, fun i hi => ?_⟩
  · rw [hlength, UInt64.toNat_sub_of_le _ _ (UInt64.le_iff_toNat_le.mpr (by omega)), hmin]
  · have hindex : (start + UInt64.ofNat i - s.base).toNat = start.toNat - s.base.toNat + i := by
      have := hplace hi
      rw [UInt64.toNat_sub_of_le _ _ (UInt64.le_iff_toNat_le.mpr (hcontains i hi).1)]
      omega
    rw [byte?, if_pos (hcontains i hi), hindex, slice, List.extract_eq_take_drop,
      List.getElem?_take_of_lt (by omega), List.getElem?_drop, hlow]

/-- Two slices side by side are one. -/
theorem slice_append (hfits : s.Fits) (hs : s.Contains start) (hstart : start ≤ middle)
    (hmiddle : middle < min stop s.limit) :
    s.slice start middle ++ s.slice middle stop = s.slice start stop := by
  have hmin := toNat_min_limit hfits stop
  have hends : s.stop = s.base.toNat + s.bytes.length := rfl
  rw [UInt64.lt_iff_toNat_lt, hmin] at hmiddle
  have hsm : s.Contains middle := by
    rw [UInt64.le_iff_toNat_le] at hstart
    exact ⟨Nat.le_trans hs.1 hstart, by omega⟩
  have hms : middle ≤ stop := UInt64.le_iff_toNat_le.mpr (by omega)
  obtain ⟨hlow, hcut⟩ := places_of_contains hfits hs hstart
  obtain ⟨hcut', hhigh⟩ := places_of_contains hfits hsm hms
  rw [UInt64.le_iff_toNat_le] at hstart
  obtain ⟨hbase, -⟩ := hs
  simp only [slice, List.extract_eq_take_drop, hlow, hcut, hcut', hhigh]
  have hsplit : min stop.toNat s.stop - s.base.toNat - (start.toNat - s.base.toNat) =
      (min middle.toNat s.stop - s.base.toNat - (start.toNat - s.base.toNat)) +
        (min stop.toNat s.stop - s.base.toNat - (middle.toNat - s.base.toNat)) := by omega
  have hdrop : middle.toNat - s.base.toNat = start.toNat - s.base.toNat +
      (min middle.toNat s.stop - s.base.toNat - (start.toNat - s.base.toNat)) := by omega
  rw [hsplit, List.take_add, List.drop_drop, ← hdrop]

end Segment

/-! ### Windows -/

namespace Image

variable {image : Image} {s : Segment} {address start middle stop : UInt64}

/-- The segment `s` is the first one of an image that contains an address. -/
def First (image : Image) (address : UInt64) (s : Segment) : Prop :=
  s.Contains address ∧ ∃ before after, image.segments = before ++ s :: after ∧
    ∀ r ∈ before, ¬ r.Contains address

/-- No address lies in two segments. -/
def Disjoint (image : Image) : Prop := image.segments.Pairwise Segment.Apart

instance (image : Image) : Decidable image.Disjoint :=
  inferInstanceAs (Decidable (List.Pairwise _ _))

theorem find?_eq_some_iff :
    image.segments.find? (fun s => s.Contains address) = some s ↔ image.First address s := by
  rw [List.find?_eq_some_iff_append, First]
  simp only [decide_eq_true_eq, Bool.not_eq_true', decide_eq_false_iff_not]

theorem First.mem (h : image.First address s) : s ∈ image.segments := by
  obtain ⟨-, before, after, hsegments, -⟩ := h
  rw [hsegments]
  exact List.mem_append_right _ List.mem_cons_self

/-- A segment that contains an address is the first one that does if no address lies in two. -/
theorem First.of_disjoint (hdisjoint : image.Disjoint) (h : image.First start s)
    (hs : s.Contains address) : image.First address s := by
  obtain ⟨-, before, after, hsegments, -⟩ := h
  refine ⟨hs, before, after, hsegments, fun r hr hcontains => ?_⟩
  unfold Disjoint at hdisjoint
  rw [hsegments, List.pairwise_append] at hdisjoint
  exact hdisjoint.2.2 r hr s List.mem_cons_self address ⟨hcontains, hs⟩

theorem window_of_first (hle : start ≤ stop) (h : image.First start s) :
    image.window start stop =
      some ((s.bytes.take (min stop.toNat s.stop - s.base.toNat)).drop
        (start.toNat - s.base.toNat)) := by
  obtain ⟨hbase, hstop⟩ := h.1
  rw [UInt64.le_iff_toNat_le] at hle
  have hplaces : start.toNat - s.base.toNat ≤ min stop.toNat s.stop - s.base.toNat := by omega
  simp only [window, find?_eq_some_iff.mpr h, Option.bind_eq_bind, Option.bind_some, hplaces,
    if_true]

theorem window_eq_none_iff (hle : start ≤ stop) :
    image.window start stop = none ↔ ∀ s ∈ image.segments, ¬ s.Contains start := by
  cases hfind : image.segments.find? fun s => s.Contains start with
  | none =>
    have hnone : image.window start stop = none := by
      simp only [window, hfind, Option.bind_eq_bind, Option.bind_none]
    rw [List.find?_eq_none] at hfind
    exact iff_of_true hnone fun s hs => of_decide_eq_false (eq_false_of_ne_true (hfind s hs))
  | some s =>
    have h : image.First start s := find?_eq_some_iff.mp hfind
    rw [window_of_first hle h]
    exact iff_of_false (Option.some_ne_none _) fun hall => hall s h.mem h.1

/-- A window is a slice of the first segment that contains its start. -/
theorem window_eq_some (hfits : s.Fits) (hle : start ≤ stop) (h : image.First start s) :
    image.window start stop = some (s.slice start stop) := by
  obtain ⟨hlow, hhigh⟩ := Segment.places_of_contains hfits h.1 hle
  rw [window_of_first hle h, Segment.slice, hlow, hhigh, List.extract_eq_take_drop, List.drop_take]

/-- A range is cut at an address of its window, where no address lies in two segments. -/
theorem window_append (hfits : s.Fits) (hdisjoint : image.Disjoint) (h : image.First start s)
    (hstart : start ≤ middle) (hmiddle : middle < min stop s.limit) :
    ∃ front back, image.window start middle = some front ∧
      image.window middle stop = some back ∧
        image.window start stop = some (front ++ back) := by
  have hbounds := hmiddle
  rw [UInt64.lt_iff_toNat_lt, Segment.toNat_min_limit hfits] at hbounds
  have hnat : start.toNat ≤ middle.toNat := UInt64.le_iff_toNat_le.mp hstart
  have hms : middle ≤ stop := UInt64.le_iff_toNat_le.mpr (by omega)
  have hsm : s.Contains middle := ⟨Nat.le_trans h.1.1 hnat, by omega⟩
  refine ⟨_, _, window_eq_some hfits hstart h,
    window_eq_some hfits hms (h.of_disjoint hdisjoint hsm), ?_⟩
  rw [Segment.slice_append hfits h.1 hstart hmiddle]
  exact window_eq_some hfits (UInt64.le_trans hstart hms) h

/-- **A window holds the bytes of a range and no others.** Let every segment of an image end within
the address space. There is no window exactly if no segment contains its start. Otherwise it holds,
address by address, the bytes of the first segment that contains its start, up to the end of the
range or of that segment. Where segments do not overlap, a window is the window up to an address of
it and then the window from there. -/
theorem window_exact (hfits : ∀ s ∈ image.segments, s.Fits) (hle : start ≤ stop) :
    (image.window start stop = none ↔ ∀ s ∈ image.segments, ¬ s.Contains start) ∧
    (∀ bytes, image.window start stop = some bytes ↔
      ∃ s, image.First start s ∧ s.Shows start (min stop s.limit) bytes) ∧
    (image.Disjoint → ∀ s, image.First start s → ∀ middle, start ≤ middle →
      middle < min stop s.limit →
        ∃ front back, image.window start middle = some front ∧
          image.window middle stop = some back ∧
            image.window start stop = some (front ++ back)) := by
  refine ⟨window_eq_none_iff hle, fun bytes => ?_, fun hdisjoint s h middle hstart hmiddle =>
    window_append (hfits s h.mem) hdisjoint h hstart hmiddle⟩
  constructor
  · intro hwindow
    cases hfind : image.segments.find? fun s => s.Contains start with
    | none => simp [window, hfind] at hwindow
    | some s =>
      have h : image.First start s := find?_eq_some_iff.mp hfind
      rw [window_eq_some (hfits s h.mem) hle h, Option.some.injEq] at hwindow
      exact ⟨s, h, hwindow ▸ Segment.shows_slice (hfits s h.mem) h.1 hle⟩
  · rintro ⟨s, h, hshows⟩
    rw [window_eq_some (hfits s h.mem) hle h]
    exact congrArg some ((Segment.shows_slice (hfits s h.mem) h.1 hle).unique hshows)

/-- An empty segment, and two segments side by side of which the higher one comes first. -/
def scattered : Image :=
  ⟨[{ name := "none", base := 0x102, bytes := [], permissions := "r-x", kind := "raw" },
    { name := "high", base := 0x104, bytes := [5, 6], permissions := "r-x", kind := "raw" },
    { name := "low", base := 0x100, bytes := [1, 2, 3, 4], permissions := "r-x", kind := "raw" }]⟩

/-- A range that ends behind the lower of two segments stops there, and is cut at an address of
it. There is no window from an address below both. -/
theorem window_exact_scattered :
    (∀ s ∈ scattered.segments, s.Fits) ∧ (0x102 : UInt64) ≤ 0x200 ∧ (0xFF : UInt64) ≤ 0x102 ∧
      (∃ s, scattered.First 0x102 s ∧ s.Shows 0x102 (min 0x200 s.limit) [3, 4]) ∧
      (∃ front back, scattered.window 0x102 0x103 = some front ∧
        scattered.window 0x103 0x200 = some back ∧
          scattered.window 0x102 0x200 = some (front ++ back)) ∧
      ∀ s ∈ scattered.segments, ¬ s.Contains 0xFF := by
  have hfits : ∀ s ∈ scattered.segments, s.Fits := by decide
  have hle : (0x102 : UInt64) ≤ 0x200 := by decide
  have hbelow : (0xFF : UInt64) ≤ 0x102 := by decide
  obtain ⟨-, hsome, hcut⟩ := window_exact hfits hle
  obtain ⟨s, hfirst, hshows⟩ := (hsome [3, 4]).mp (by decide)
  have hfound : scattered.segments.find? (fun s => s.Contains 0x102) = scattered.segments[2]? := by
    rfl
  refine ⟨hfits, hle, hbelow, ⟨s, hfirst, hshows⟩, ?_,
    (window_exact hfits hbelow).1.mp (by decide)⟩
  obtain rfl : s = _ := Option.some.inj ((find?_eq_some_iff.mpr hfirst).symm.trans hfound)
  exact hcut (by decide) _ hfirst 0x103 (by decide) (by decide)

end Image

end TriCore
