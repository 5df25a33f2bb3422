import TriCore.Proofs.Json.RoundTrip
import TriCore.Proofs.Listing.Message

/-!
# Records of a listing

A record shows an entry by what is found under its keys. The keys tell which parts there are: the
bytes are there exactly if they are to be shown, and there is either an instruction or a failure.
Each part is known by its own document, where names, numbers and messages stand for what they were
made from, so a record shows one entry only. The text of a document tells the document, and the text
of an array of records tells all the entries. Nothing is left out here: a record holds also the
width and the recorded address of an instruction.

## Main definitions

* `Json.keys`, `Json.get?` : the keys of an object, and what is found under a key.
* `Listing.Entry.Recorded` : a record that shows an entry.

## Main results

* `Listing.Entry.recorded`, `Listing.Entry.Recorded.unique` : the record of an entry shows it and no
  other.
* `Listing.document_injective` : an array of records tells the entries.
* `Listing.plain_document` : the numbers in an array of records are natural.
* `Listing.records_faithful` : the text of an array of records tells all the entries.
-/

namespace TriCore

open Text

/-- The keys of an object in order. -/
def Json.keys : Json → List (Option String)
  | object entries => entries.map Prod.fst
  | _ => []

/-- What an object has under a key. -/
def Json.get? (j : Json) (key : String) : Option Json :=
  match j with
  | object entries => entries.lookup (some key)
  | _ => none

/-! ### Instructions -/

theorem Operand.toJson_injective : Function.Injective toJson := by
  intro o o' h
  cases o with
  | register cls r =>
    cases o' with
    | register cls' r' =>
      simp only [toJson, Json.record, Json.string, List.map_cons, List.map_nil, Json.object.injEq,
        List.cons.injEq, Prod.mk.injEq, Json.text.injEq, Json.natural.injEq, Option.some.injEq,
        and_true, true_and] at h
      obtain ⟨hname, hid⟩ := h
      obtain ⟨id⟩ := r
      obtain ⟨id'⟩ := r'
      obtain rfl : id = id' := UInt16.toNat_inj.mp hid
      rw [RegisterClass.name_injective hname]
    | immediate value bits => simp [toJson, Json.record, Json.string] at h
  | immediate value bits =>
    cases o' with
    | register cls r => simp [toJson, Json.record, Json.string] at h
    | immediate value' bits' =>
      simp only [toJson, Json.record, Json.string, List.map_cons, List.map_nil, Json.object.injEq,
        List.cons.injEq, Prod.mk.injEq, Json.natural.injEq, and_true, true_and] at h
      obtain ⟨hvalue, hbits⟩ := h
      rw [BitVec.eq_of_toNat_eq hvalue, UInt8.toNat_inj.mp hbits]

theorem Instruction.toJson_injective : Function.Injective toJson := by
  intro i i' h
  obtain ⟨opcode, operands, width, address⟩ := i
  obtain ⟨opcode', operands', width', address'⟩ := i'
  simp only [toJson, Json.record, Json.string, List.map_cons, List.map_nil, Json.object.injEq,
    List.cons.injEq, Prod.mk.injEq, Json.text.injEq, Json.natural.injEq, Json.array.injEq,
    Option.some.injEq, and_true, true_and] at h
  obtain ⟨hopcode, hoperands, hwidth, haddress⟩ := h
  rw [Opcode.name_injective hopcode, List.map_injective_iff.mpr Operand.toJson_injective hoperands,
    Width.name_injective hwidth, UInt64.toNat_inj.mp haddress]

theorem Operand.plain_toJson (o : Operand) : o.toJson.Plain := by
  cases o with
  | register cls r =>
    refine Json.plain_record ?_
    simp only [List.forall_mem_cons, List.not_mem_nil, false_imp_iff, implies_true, and_true]
    exact ⟨.text _, .text _, .natural _⟩
  | immediate value bits =>
    refine Json.plain_record ?_
    simp only [List.forall_mem_cons, List.not_mem_nil, false_imp_iff, implies_true, and_true]
    exact ⟨.text _, .natural _, .natural _⟩

theorem Instruction.plain_toJson (i : Instruction) : i.toJson.Plain := by
  have hoperands : (Json.array (i.operands.map Operand.toJson)).Plain := by
    refine .array fun j hj => ?_
    obtain ⟨o, -, rfl⟩ := List.mem_map.mp hj
    exact o.plain_toJson
  refine Json.plain_record ?_
  simp only [List.forall_mem_cons, List.not_mem_nil, false_imp_iff, implies_true, and_true]
  exact ⟨.text _, hoperands, .text _, .natural _⟩

namespace Listing

/-! ### Entries -/

/-- Bytes in a record: the pairs of their digits, with a blank between any two. -/
def pairsText (bytes : List UInt8) : String :=
  String.ofList ([' '].intercalate (bytes.map digitPair))

theorem byteEntry_eq (bytes : List UInt8) :
    byteEntry bytes = ("bytes", .string (pairsText bytes)) := by
  have htext : " ".intercalate (bytes.map hexByte) = pairsText bytes := by
    simp only [← String.toList_inj, String.toList_intercalate, List.map_map, Function.comp_def,
      toList_hexByte, pairsText, String.toList_ofList, String.reduceToList]
  rw [byteEntry, htext]

theorem pairsText_injective : Function.Injective pairsText := by
  intro bytes bytes' h
  have hblank : EndsWord [' '] := endsWord_cons (by decide)
  exact delimited_digitPair.intercalate_injective (fun _ => List.cons_ne_nil _ _) hblank
    (List.cons_ne_nil _ _) (String.ofList_injective h)

/-- What a record has under the keys of an instruction and of a failure. -/
def outcomeParts : Except Halt Instruction → Option Json × Option Json
  | .ok i => (some i.toJson, none)
  | .error halt => (none, some (.string halt.message))

theorem outcomeParts_injective : Function.Injective outcomeParts := by
  intro result result' h
  obtain ⟨hinstruction, herror⟩ := Prod.mk.inj h
  cases result with
  | ok i =>
    cases result' with
    | ok i' => rw [Instruction.toJson_injective (Option.some.inj hinstruction)]
    | error halt' => cases hinstruction
  | error halt =>
    cases result' with
    | ok i' => cases hinstruction
    | error halt' =>
      have hmessage := Json.text.inj (Option.some.inj herror)
      rw [Halt.message_injective (Option.some.inj hmessage)]

/-- A record shows an entry: the address, the bytes as pairs of digits with a blank between any two
if they are to be shown, and either the instruction or what went wrong. -/
structure Entry.Recorded (e : Entry) (record : Json) : Prop where
  address : record.get? "address" = some (.natural e.address.toNat)
  bytes : record.get? "bytes" = e.bytes.map fun bytes => .string (pairsText bytes)
  outcome : (record.get? "instruction", record.get? "error") = outcomeParts e.result

theorem Entry.recorded (e : Entry) : e.Recorded e.record := by
  obtain ⟨address, bytes, result⟩ := e
  constructor
  case address => rfl
  case bytes =>
    cases bytes with
    | none => cases result <;> rfl
    | some bytes => exact congrArg (fun entry => some entry.2) (byteEntry_eq bytes)
  case outcome => cases bytes <;> cases result <;> rfl

/-- A record shows one entry only. -/
theorem Entry.Recorded.unique {e e' : Entry} {record : Json} (h : e.Recorded record)
    (h' : e'.Recorded record) : e = e' := by
  have haddress := Json.natural.inj (Option.some.inj (h.address.symm.trans h'.address))
  have hstring : Function.Injective fun bytes => Json.string (pairsText bytes) :=
    fun _ _ heq => pairsText_injective (Option.some.inj (Json.text.inj heq))
  have hbytes := Option.map_injective hstring (h.bytes.symm.trans h'.bytes)
  have hresult := outcomeParts_injective (h.outcome.symm.trans h'.outcome)
  obtain ⟨address, bytes, result⟩ := e
  obtain ⟨address', bytes', result'⟩ := e'
  obtain rfl := UInt64.toNat_inj.mp haddress
  obtain rfl := hbytes
  obtain rfl := hresult
  rfl

theorem Entry.record_injective : Function.Injective Entry.record := fun e e' h =>
  e.recorded.unique (h ▸ e'.recorded)

/-- The keys of a record tell which parts there are. -/
theorem Entry.keys_record (e : Entry) : e.record.keys =
    some "address" :: ((e.bytes.map fun _ => some "bytes").toList ++
      [some (match e.result with
        | .ok _ => "instruction"
        | .error _ => "error")]) := by
  obtain ⟨address, bytes, result⟩ := e
  cases bytes <;> cases result <;> rfl

/-! ### Whole listings -/

theorem document_injective : Function.Injective document := by
  intro es es' h
  exact List.map_injective_iff.mpr Entry.record_injective (Json.array.inj h)

theorem plain_record (e : Entry) : e.record.Plain := by
  obtain ⟨address, bytes, result⟩ := e
  have houtcome : (outcomeEntry result).2.Plain := by
    cases result with
    | ok i => exact i.plain_toJson
    | error halt => exact .text _
  refine Json.plain_record (List.forall_mem_cons.mpr ⟨.natural _, fun entry hentry => ?_⟩)
  rcases List.mem_append.mp hentry with hbytes | hresult
  · obtain ⟨_, -, rfl⟩ := Option.map_eq_some_iff.mp (Option.mem_toList.mp hbytes)
    exact .text _
  · rw [List.mem_singleton.mp hresult]
    exact houtcome

/-- The numbers in an array of records are natural. -/
theorem plain_document (es : List Entry) : (document es).Plain := by
  refine .array fun j hj => ?_
  obtain ⟨e, -, rfl⟩ := List.mem_map.mp hj
  exact plain_record e

/-- The text of an array of records tells all the entries, and it can be read back. Each record has
either an instruction or a failure and has bytes exactly if they are to be shown, each under a key
that it has once. -/
theorem records_faithful :
    (∀ es es' : List Entry, (document es).compact = (document es').compact ↔ es = es') ∧
    (∀ es : List Entry, Json.parse? (document es).compact = some (document es)) ∧
    ∀ e : Entry, e.record.keys.Nodup ∧
      (some "bytes" ∈ e.record.keys ↔ e.bytes.isSome) ∧
      (some "instruction" ∈ e.record.keys ↔ ∃ i, e.result = .ok i) ∧
      (some "error" ∈ e.record.keys ↔ ∃ halt, e.result = .error halt) := by
  refine ⟨fun es es' => ?_, fun es => Json.parse?_compact (plain_document es), fun e => ?_⟩
  · rw [← document_injective.eq_iff]
    exact (plain_document es).write_inj (plain_document es') .compact
  · rw [e.keys_record]
    obtain ⟨address, bytes, result⟩ := e
    cases bytes <;> cases result <;> simp

end Listing

end TriCore
