import TriCore.Proofs.Attempts
import TriCore.Proofs.Decoder.Locality
import TriCore.Proofs.Sweep.Tiling

/-!
# Sweeps over buffers that are put together

Bytes behind a buffer are in view of every attempt of a sweep over it. They matter only to an
attempt to which bytes are missing. A sweep without such an attempt goes through the buffer as if
nothing were behind, reaches its end, and goes on with what is behind as a sweep of its own at the
address that follows. What is collected from the attempts splits in the same way.

## Main definitions

* `Attempt.LacksBytes` : bytes are missing to an attempt.
* `Attempt.shift` : an attempt at a place further on.
* `Sweep.extend`, `Sweep.atEnd` : a place of a sweep with further bytes behind the buffer, and the
  place where these begin.
* `Sweep.embed` : a place of a sweep as it lies in a longer buffer.

## Main results

* `Sweep.attempts_extend` : the attempts with further bytes behind the buffer.
* `Sweep.attempts_embed` : the attempts as they lie in a longer buffer.
* `Decoder.decodeAll_eq_ok_iff`, `Decoder.decodeAll_eq_error_iff` : what is collected from the
  attempts.
* `Decoder.sweep_append` : the sweep of a buffer that is put together from two.
-/

namespace TriCore

namespace Attempt

/-- Bytes are missing to an attempt. -/
def LacksBytes (a : Attempt) : Prop :=
  ∃ needed available, a.result = .error (.rejected (.insufficientData needed available))

instance (a : Attempt) : Decidable a.LacksBytes :=
  decidable_of_iff (a.result matches .error (.rejected (.insufficientData ..)))
    (by
      unfold LacksBytes
      rcases a.result with (error | field) | i
      · cases error <;> simp
      · simp
      · simp)

/-- The attempt at a place `n` bytes further on. -/
def shift (n : Nat) (a : Attempt) : Attempt := { a with offset := n + a.offset }

theorem succeeded_iff {a : Attempt} : a.succeeded ↔ ∃ i, a.result = .ok i := by
  rw [succeeded]
  cases a.result <;> simp [Except.isOk, Except.toBool]

end Attempt

namespace Sweep

variable {s : Sweep}

/-! ### Further bytes behind the buffer -/

/-- The place with further bytes behind the buffer. -/
def extend (s : Sweep) (more : List UInt8) : Sweep := { s with rest := s.rest ++ more }

/-- The place at which the buffer ends, with further bytes there. -/
def atEnd (s : Sweep) (more : List UInt8) : Sweep :=
  { s with rest := more, offset := s.offset + s.rest.length }

theorem step_attempt_le (hd : s.decoder.TablesInRange) (hrest : s.rest ≠ []) :
    s.attempt.step ≤ s.rest.length := by
  rcases attempt_cases hd hrest with ⟨hstep, hlength, -⟩ | ⟨hstep, hlength⟩ | ⟨hstep, hlength, -⟩
  all_goals omega

theorem two_le_length_of_not_lacksBytes (hd : s.decoder.TablesInRange) (hrest : s.rest ≠ [])
    (h : ¬s.attempt.LacksBytes) : 2 ≤ s.rest.length := by
  rcases attempt_cases hd hrest with ⟨-, -, hresult⟩ | ⟨-, hlength⟩ | ⟨-, hlength, -⟩
  · exact absurd ⟨2, 1, hresult⟩ h
  · exact hlength
  · omega

/-- What a step is does not depend on how much is left, if it is enough. -/
theorem stepAfter_eq {m n : Nat} (result : Except Halt Instruction) (hm : 2 ≤ m) (hn : 2 ≤ n) :
    stepAfter result m = stepAfter result n := by
  cases result with
  | ok i => rfl
  | error halt =>
    simp only [stepAfter, resyncStep]
    omega

/-- An attempt to which no bytes are missing is the same with further bytes behind. -/
theorem attempt_extend (hd : s.decoder.TablesInRange) (hrest : s.rest ≠ [])
    (h : ¬s.attempt.LacksBytes) (more : List UInt8) : (s.extend more).attempt = s.attempt := by
  have hlength := two_le_length_of_not_lacksBytes hd hrest h
  have hdecode : s.decoder.decodeLogged (s.rest ++ more) s.address =
      s.decoder.decodeLogged s.rest s.address :=
    Decoder.decodeLogged_append (fun _ _ hresult => h ⟨_, _, hresult⟩) more
  have hstep : stepAfter s.attempt.result (s.rest ++ more).length =
      stepAfter s.attempt.result s.rest.length :=
    stepAfter_eq _ (by rw [List.length_append]; omega) hlength
  have hstart : (s.extend more).attempt =
      { s.attempt with step := stepAfter s.attempt.result (s.rest ++ more).length } := by
    change attempt { s with rest := s.rest ++ more } = _
    simp only [attempt, address] at hdecode ⊢
    rw [hdecode]
  rw [hstart, hstep, ← step_attempt]

theorem advance_extend {step : Nat} (h : step ≤ s.rest.length) (more : List UInt8) :
    (s.extend more).advance step = (s.advance step).extend more := by
  simp only [advance, extend, List.drop_append_of_le_length h]

theorem atEnd_advance {step : Nat} (h : step ≤ s.rest.length) (more : List UInt8) :
    (s.advance step).atEnd more = s.atEnd more := by
  simp only [atEnd, advance, List.length_drop]
  congr 1
  omega

/-- The attempts of a sweep to none of which bytes are missing are the same with further bytes
behind the buffer, and go on there. -/
theorem attempts_extend (hd : s.decoder.TablesInRange) (h : ∀ a ∈ s.attempts, ¬a.LacksBytes)
    (more : List UInt8) : (s.extend more).attempts = s.attempts ++ (s.atEnd more).attempts := by
  fun_induction attempts s with
  | case1 s hnone =>
    have hrest : s.rest = [] := next?_eq_none_iff.mp hnone
    simp only [extend, atEnd, hrest, List.nil_append, List.length_nil, Nat.add_zero]
  | case2 s a t hnext ih =>
    obtain ⟨hrest, rfl, rfl⟩ := next?_eq_some_iff.mp hnext
    have hstep := step_attempt_le hd hrest
    have hattempt : (s.extend more).attempt = s.attempt :=
      attempt_extend hd hrest (h _ List.mem_cons_self) more
    have hnext' : (s.extend more).next? =
        some (s.attempt, (s.advance s.attempt.step).extend more) :=
      next?_eq_some_iff.mpr
        ⟨List.append_ne_nil_of_left_ne_nil hrest more, hattempt, advance_extend hstep more⟩
    rw [attempts_of_next?_eq_some hnext', ih hd fun b hb => h b (List.mem_cons_of_mem _ hb),
      atEnd_advance hstep, List.cons_append]

/-! ### A buffer within a longer one -/

/-- The place as it lies in a longer buffer, in which `n` bytes come before this one. -/
def embed (n : Nat) (s : Sweep) : Sweep :=
  { s with base := s.base - UInt64.ofNat n, offset := n + s.offset }

theorem address_embed (n : Nat) (s : Sweep) : (s.embed n).address = s.address := by
  simp only [address, embed, UInt64.ofNat_add, ← UInt64.add_assoc, UInt64.sub_add_cancel]

theorem attempt_embed (n : Nat) (s : Sweep) : (s.embed n).attempt = s.attempt.shift n := by
  have haddress := address_embed n s
  unfold attempt Attempt.shift
  rw [haddress]
  rfl

theorem advance_embed (n step : Nat) (s : Sweep) :
    (s.embed n).advance step = (s.advance step).embed n := by
  simp only [advance, embed, Nat.add_assoc]

/-- The attempts as they lie in a longer buffer. -/
theorem attempts_embed (n : Nat) (s : Sweep) :
    (s.embed n).attempts = s.attempts.map (Attempt.shift n) := by
  fun_induction attempts s with
  | case1 s hnone =>
    have hrest : s.rest = [] := next?_eq_none_iff.mp hnone
    exact attempts_of_next?_eq_none (next?_eq_none_iff.mpr hrest)
  | case2 s a t hnext ih =>
    obtain ⟨hrest, rfl, rfl⟩ := next?_eq_some_iff.mp hnext
    have hnext' : (s.embed n).next? =
        some (s.attempt.shift n, (s.advance s.attempt.step).embed n) :=
      next?_eq_some_iff.mpr ⟨hrest, attempt_embed n s, advance_embed n _ s⟩
    rw [attempts_of_next?_eq_some hnext', ih, List.map_cons]

end Sweep

namespace Decoder

variable {d : Decoder} {p q : List UInt8} {base : UInt64}

/-! ### Sweeps -/

theorem sweep_append_of_not_lacksBytes (hd : d.TablesInRange)
    (h : ∀ a ∈ d.sweep p base, ¬a.LacksBytes) (q : List UInt8) :
    d.sweep (p ++ q) base =
      d.sweep p base ++
        (d.sweep q (base + UInt64.ofNat p.length)).map (Attempt.shift p.length) := by
  have hend : (Sweep.start d p base).atEnd q =
      (Sweep.start d q (base + UInt64.ofNat p.length)).embed p.length := by
    simp only [Sweep.atEnd, Sweep.embed, Sweep.start, UInt64.add_sub_cancel, Nat.zero_add,
      Nat.add_zero]
  have hextend := Sweep.attempts_extend (s := Sweep.start d p base) hd h q
  rw [hend, Sweep.attempts_embed] at hextend
  exact hextend

/-! ### What is collected -/

theorem decodeAll_eq_ok_iff {bytes : List UInt8} {instructions : List Instruction} :
    d.decodeAll bytes base = .ok instructions ↔
      (d.sweep bytes base).map (·.result) = instructions.map .ok :=
  mapM_eq_ok_iff

theorem decodeAll_eq_error_iff {bytes : List UInt8} {halt : Halt} :
    d.decodeAll bytes base = .error halt ↔
      ∃ before a after, d.sweep bytes base = before ++ a :: after ∧
        (∀ b ∈ before, b.succeeded) ∧ a.result = .error halt := by
  simp only [Attempt.succeeded_iff]
  exact mapM_eq_error_iff

/-- If all attempts succeed, bytes are missing to none of them. -/
theorem not_lacksBytes_of_decodeAll_eq_ok {instructions : List Instruction}
    (h : d.decodeAll p base = .ok instructions) : ∀ a ∈ d.sweep p base, ¬a.LacksBytes := by
  rintro a ha ⟨needed, available, hresult⟩
  have hmem : a.result ∈ instructions.map Except.ok :=
    decodeAll_eq_ok_iff.mp h ▸ List.mem_map_of_mem ha
  rw [hresult] at hmem
  simp at hmem

theorem decodeAll_append (hd : d.TablesInRange) {instructions : List Instruction}
    (h : d.decodeAll p base = .ok instructions) (q : List UInt8) :
    d.decodeAll (p ++ q) base =
      (d.decodeAll q (base + UInt64.ofNat p.length)).map (instructions ++ ·) := by
  have hsweep := sweep_append_of_not_lacksBytes hd (not_lacksBytes_of_decodeAll_eq_ok h) q
  have hshift : ((d.sweep q (base + UInt64.ofNat p.length)).map (Attempt.shift p.length)).mapM
      (·.result) = d.decodeAll q (base + UInt64.ofNat p.length) := List.mapM_map ..
  rw [decodeAll, hsweep, mapM_append_of_eq_ok h, hshift]

/-- **Sweeping splits over concatenation.** Take a decoder assembled from any parts whose tables
read no field outside a word. If bytes are missing to no attempt of the sweep of `p`, the sweep of
`p ++ q` is the sweep of `p` followed by the sweep of `q` at the address behind `p`, with the places
counted on. If all of `p` is decoded, what is decoded from `p ++ q` is followed by what is decoded
from `q`, or `q` fails and so does the whole. A buffer is decoded if every attempt of its sweep
succeeds, and fails as the first attempt that fails. -/
theorem sweep_append {registers : RegisterFile} {descriptors : DescriptorTable}
    {short long : Decision.Table} {features : Features} {d : Decoder}
    (hd : ofParts registers descriptors short long features = .ok d)
    (hshort : short.InRange) (hlong : long.InRange) (base : UInt64) (p q : List UInt8) :
    ((∀ a ∈ d.sweep p base, ¬a.LacksBytes) →
      d.sweep (p ++ q) base = d.sweep p base ++
        (d.sweep q (base + UInt64.ofNat p.length)).map (Attempt.shift p.length)) ∧
    (∀ instructions, d.decodeAll p base = .ok instructions →
      d.decodeAll (p ++ q) base =
        (d.decodeAll q (base + UInt64.ofNat p.length)).map (instructions ++ ·)) ∧
    (∀ bytes instructions, d.decodeAll bytes base = .ok instructions ↔
      (d.sweep bytes base).map (·.result) = instructions.map .ok) ∧
    ∀ bytes halt, d.decodeAll bytes base = .error halt ↔
      ∃ before a after, d.sweep bytes base = before ++ a :: after ∧
        (∀ b ∈ before, b.succeeded) ∧ a.result = .error halt := by
  have inRange : d.TablesInRange := tablesInRange_of_ofParts hd hshort hlong
  exact ⟨fun h => sweep_append_of_not_lacksBytes inRange h q,
    fun _ h => decodeAll_append inRange h q, fun _ _ => decodeAll_eq_ok_iff,
    fun _ _ => decodeAll_eq_error_iff⟩

/-- A halfword that is skipped in view of the instruction behind it, with two more attempts behind
that, at addresses that wrap around. -/
theorem sweep_append_skipped :
    let p : List UInt8 := [0x00, 0x00, 0x3C, 0x04]
    let q : List UInt8 := [0x1D, 0x00, 0x10, 0x00, 0x46]
    let base : UInt64 := 0xFFFFFFFFFFFFFFFE
    let d : Decoder := standard .all
    ofParts .standard .standard .short .long .all = .ok d ∧
      Decision.Table.short.InRange ∧ Decision.Table.long.InRange ∧
      (∀ a ∈ d.sweep p base, ¬a.LacksBytes) ∧
      d.sweep (p ++ q) base = d.sweep p base ++ (d.sweep q 2).map (Attempt.shift 4) ∧
      (d.sweep (p ++ q) base).map (fun a => (a.offset, a.address, a.succeeded)) =
        [(0, base, false), (2, 0, true), (4, 2, true), (8, 6, false)] := by
  intro p q base d
  have hparts : ofParts .standard .standard .short .long .all = .ok d := rfl
  obtain ⟨hshort, hlong⟩ := tablesInRange_standard .all
  have hnone : ∀ a ∈ d.sweep p base, ¬a.LacksBytes := by decide +kernel
  have happend := (sweep_append hparts hshort hlong base p q).1 hnone
  have hbehind : base + UInt64.ofNat p.length = 2 := by decide
  rw [hbehind] at happend
  exact ⟨hparts, hshort, hlong, hnone, happend, by decide +kernel⟩

end Decoder

end TriCore
