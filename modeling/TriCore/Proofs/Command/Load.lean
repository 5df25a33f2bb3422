import TriCore.Command.FileTree
import TriCore.Command.Run

/-!
# What a run loads

A run on the files of a tree either changes nothing or writes one file at its very end. It loads the
payload of its input file and then its configuration, each of them from the tree that it started
with. What it does after that depends on these two and no longer on the tree, except for the place
where a listing is written to.

## Main definitions

* `Command.onTree` : what an action does to a tree of files.
* `Command.imageOf` : the image of a payload.
* `Command.Loads` : the payload and the configuration that a run works with.
* `Command.carryOut`, `Command.deliver` : what a request does, and what becomes of a listing.

## Main results

* `Command.onTree_execute` : what a run does, as one equation.
* `Command.exists_loads_of_onTree_eq_ok` : a run that succeeds has loaded both.
* `Command.tree_eq_of_exitCode_ne_zero` : a run that fails changes no file.
-/

namespace TriCore

section MapError

variable {ε δ α : Type} {f : ε → δ} {a : α} {e : ε}

theorem mapError_ok : (Except.ok a).mapError f = .ok a := rfl

theorem mapError_error : (Except.error e : Except ε α).mapError f = .error (f e) := rfl

end MapError

/-! ### Payloads -/

/-- The payload of a file: what is behind the first `skip` bytes, limited if there is a limit. -/
theorem Image.payload_eq_ok_iff {file payload : List UInt8} {skip : Nat} {limit : Option Nat} :
    Image.payload file skip limit = .ok payload ↔
      skip ≤ file.length ∧ (∀ n ∈ limit, skip + n ≤ file.length) ∧
        payload = (file.drop skip).take (limit.getD file.length) := by
  unfold Image.payload
  by_cases hskip : file.length < skip
  · simp only [hskip, if_true, reduceCtorEq, false_iff]
    omega
  · simp only [hskip, if_false]
    have hle : skip ≤ file.length := Nat.le_of_not_lt hskip
    cases limit with
    | none =>
      have htake : (file.drop skip).take file.length = file.drop skip :=
        List.take_of_length_le (by rw [List.length_drop]; omega)
      simp [hle, htake, eq_comm]
    | some n =>
      by_cases hn : (file.drop skip).length < n
      · simp only [hn, if_true, reduceCtorEq, false_iff]
        rw [List.length_drop] at hn
        simp only [Option.mem_def, Option.some.injEq, forall_eq']
        omega
      · rw [List.length_drop] at hn
        have hlimit : skip + n ≤ file.length := by omega
        simp [hle, hlimit, hn, eq_comm]

/-! ### Writing to a tree -/

namespace FileTree

variable {place : Place}

theorem ofString_ne_other (text message : String) :
    Path.ofString text ≠ .error (.other message) := by
  unfold Path.ofString
  split
  · simp
  · split <;> simp

theorem step_ne_other (t : FileTree) (place : Place) (part message : String) :
    t.step place part ≠ .error (.other message) := by
  unfold step
  repeat' split
  all_goals simp

theorem follow_ne_other (t : FileTree) (place : Place) (parts : List String) (message : String) :
    t.follow place parts ≠ .error (.other message) := by
  induction parts generalizing place with
  | nil => simp [follow, pure, Except.pure]
  | cons part parts ih =>
    rw [follow, List.foldlM_cons]
    cases hstep : t.step place part with
    | error e =>
      intro h
      obtain rfl : e = .other message := Except.error.inj h
      exact t.step_ne_other place part message hstep
    | ok place' => exact ih place'

/-- That nothing can be written to a path has a cause that is known. -/
theorem target_ne_other (t : FileTree) (path message : String) :
    t.target path ≠ .error (.other message) := by
  unfold target
  cases hpath : Path.ofString path with
  | error e =>
    intro h
    obtain rfl : e = .other message := Except.error.inj h
    exact ofString_ne_other path message hpath
  | ok p =>
    simp only [bind, Except.bind]
    cases p.parts.getLast? with
    | none => simp
    | some name =>
      cases hfollow : t.follow (t.start p) p.parts.dropLast with
      | error e =>
        intro h
        obtain rfl : e = .other message := Except.error.inj h
        exact t.follow_ne_other (t.start p) p.parts.dropLast message hfollow
      | ok place =>
        simp only
        repeat' split
        all_goals simp

end FileTree

/-- A file that cannot be read or written for a known cause is not mistaken for an address that is
not mapped. -/
theorem FileError.message_ne_unmapped {e : FileError} (he : ∀ message, e ≠ .other message)
    (address : UInt64) :
    (Command.Failure.file e).message ≠ (Command.Failure.unmapped address).message := by
  intro h
  have hhead : (Command.Failure.unmapped address).message.toList.head? = some '0' := by
    simp [Command.Failure.message, Text.hex]
  rw [← h] at hhead
  cases e with
  | other message => exact he message rfl
  | _ => simp [Command.Failure.message, FileError.message] at hhead

namespace Command

open FileTree

variable {α β : Type} {t t' : FileTree} {settings : Settings} {request : Request}

/-! ### Actions on a tree -/

/-- What an action does to a tree of files: its result, and the tree that it leaves. -/
def onTree (t : FileTree) (action : ExceptT Failure (StateM FileTree) α) :
    Except Failure α × FileTree :=
  action.run.run t

theorem onTree_bind (t : FileTree) (action : ExceptT Failure (StateM FileTree) α)
    (next : α → ExceptT Failure (StateM FileTree) β) : onTree t (action >>= next) =
      match onTree t action with
      | (.ok a, t') => onTree t' (next a)
      | (.error failure, t') => (.error failure, t') := by
  simp only [onTree, ExceptT.run_bind, StateT.run_bind]
  rcases action.run.run t with ⟨_ | _, t'⟩ <;> rfl

theorem onTree_pure (t : FileTree) (a : α) : onTree t (pure a) = (.ok a, t) := rfl

theorem onTree_liftM (t : FileTree) (result : Except Failure α) :
    onTree t (liftM result) = (result, t) := by
  cases result <;> rfl

theorem onTree_read (t : FileTree) (path : String) :
    onTree t (ExceptT.mk do return (← fileSystem.read path).mapError .file) =
      ((t.read path).mapError .file, t) := rfl

theorem onTree_throw (t : FileTree) (failure : Failure) :
    onTree (α := α) t (throw failure) = (.error failure, t) := rfl

theorem onTree_monadLift_read (t : FileTree) (path : String) :
    onTree t (liftM (fileSystem.read path)) = (.ok (t.read path), t) := rfl

theorem onTree_write (t : FileTree) (path content : String) :
    onTree t (ExceptT.mk do return (← fileSystem.write path content).mapError .file) =
      match t.target path with
      | .ok place => (.ok (), t.put place content.toUTF8.toList)
      | .error e => (.error (.file e), t) := by
  change ((fileSystem.write path content t).1.mapError Failure.file,
    (fileSystem.write path content t).2) = _
  simp only [fileSystem]
  cases t.target path <;> rfl

/-! ### Loading -/

/-- The segment of a payload. -/
def segmentOf (base : UInt64) (payload : List UInt8) : Segment :=
  { name := "segment0", base, bytes := payload, permissions := "r-x", kind := "raw" }

/-- The image of a payload. -/
def imageOf (base : UInt64) (payload : List UInt8) : Image := ⟨[segmentOf base payload]⟩

/-- The payload of the input file in a tree. -/
def payloadIn (t : FileTree) (settings : Settings) : Except Failure (List UInt8) :=
  match t.read settings.input with
  | .error e => .error (.file e)
  | .ok file => (Image.payload file settings.skip settings.limit).mapError .load

/-- The configuration in the given file of a tree. -/
def configurationIn (t : FileTree) (settings : Settings) : Except Failure Configuration :=
  match settings.configuration with
  | none => .ok .complete
  | some path =>
    match t.read path with
    | .error _ => .error (.configurationUnreadable path)
    | .ok bytes =>
      match configuration? bytes with
      | none => .error (.configurationUnreadable path)
      | some none => .error (.configurationInvalid path)
      | some (some configuration) => .ok configuration

theorem onTree_loadImage (t : FileTree) (settings : Settings) :
    onTree t (loadImage fileSystem settings) =
      ((payloadIn t settings).map (imageOf settings.base), t) := by
  rw [loadImage, onTree_bind, onTree_read, payloadIn]
  cases t.read settings.input with
  | error e => rfl
  | ok file =>
    change onTree t (liftM ((Image.load file settings.base settings.skip
      settings.limit).mapError Failure.load)) = _
    simp only [onTree_liftM, Image.load]
    cases Image.payload file settings.skip settings.limit <;> rfl

theorem onTree_loadConfiguration (t : FileTree) (settings : Settings) :
    onTree t (loadConfiguration fileSystem settings) = (configurationIn t settings, t) := by
  unfold loadConfiguration configurationIn
  cases settings.configuration with
  | none => rfl
  | some path =>
    simp only
    rw [onTree_bind, onTree_monadLift_read]
    cases t.read path with
    | error e => rfl
    | ok bytes =>
      cases hconfiguration : configuration? bytes with
      | none => simp [hconfiguration, onTree_throw]
      | some found => cases found <;> simp [hconfiguration, onTree_throw, onTree_pure]

/-- The payload and the configuration that a run works with. -/
structure Loads (t : FileTree) (settings : Settings) (payload : List UInt8)
    (configuration : Configuration) : Prop where
  /-- The payload is what is behind the skipped bytes of the file, limited if there is a limit. -/
  part : ∃ file, t.read settings.input = .ok file ∧ settings.skip ≤ file.length ∧
    (∀ n ∈ settings.limit, settings.skip + n ≤ file.length) ∧
      payload = (file.drop settings.skip).take (settings.limit.getD file.length)
  /-- The configuration is the one in the given file. -/
  given : ∀ path ∈ settings.configuration, ∃ bytes, t.read path = .ok bytes ∧
    configuration? bytes = some (some configuration)
  /-- The configuration is the complete one if no file is given. -/
  complete : settings.configuration = none → configuration = .complete

variable {payload : List UInt8} {configuration : Configuration}

theorem payloadIn_eq_ok_iff : payloadIn t settings = .ok payload ↔
    ∃ file, t.read settings.input = .ok file ∧
      Image.payload file settings.skip settings.limit = .ok payload := by
  unfold payloadIn
  cases t.read settings.input with
  | error e => simp
  | ok file =>
    cases hpayload : Image.payload file settings.skip settings.limit <;>
      simp [hpayload, mapError_ok, mapError_error]

theorem configurationIn_eq_ok_iff : configurationIn t settings = .ok configuration ↔
    (∀ path ∈ settings.configuration, ∃ bytes, t.read path = .ok bytes ∧
      configuration? bytes = some (some configuration)) ∧
    (settings.configuration = none → configuration = .complete) := by
  unfold configurationIn
  cases settings.configuration with
  | none => simp [eq_comm]
  | some path =>
    cases hread : t.read path with
    | error e => simp [hread]
    | ok bytes => rcases hfound : configuration? bytes with _ | _ | found <;> simp [hread, hfound]

theorem loads_iff : Loads t settings payload configuration ↔
    payloadIn t settings = .ok payload ∧ configurationIn t settings = .ok configuration := by
  rw [payloadIn_eq_ok_iff, configurationIn_eq_ok_iff]
  simp only [Image.payload_eq_ok_iff]
  exact ⟨fun ⟨hpayload, hgiven, hcomplete⟩ => ⟨hpayload, hgiven, hcomplete⟩,
    fun ⟨hpayload, hgiven, hcomplete⟩ => ⟨hpayload, hgiven, hcomplete⟩⟩

/-! ### Requests -/

/-- What becomes of a listing: it is printed, or written to the file that receives it. -/
def deliver (t : FileTree) (out : Option String) (listing : String) :
    Except Failure String × FileTree :=
  match out with
  | none => (.ok listing, t)
  | some path =>
    match t.target path with
    | .ok place => (.ok "", t.put place listing.toUTF8.toList)
    | .error e => (.error (.file e), t)

/-- What is done with an image. -/
def carryOut (t : FileTree) (image : Image) (features : Features) :
    Request → Except Failure String × FileTree
  | .sections => (.ok (sectionsText image), t)
  | .range r =>
    match rangeText image features r with
    | .error failure => (.error failure, t)
    | .ok listing => deliver t r.out listing

/-- Payload and configuration are loaded, in this order, and then a request is carried out. -/
theorem onTree_execute (t : FileTree) (settings : Settings) (request : Request) :
    onTree t (execute fileSystem settings request) =
      match payloadIn t settings with
      | .error failure => (.error failure, t)
      | .ok payload =>
        match configurationIn t settings with
        | .error failure => (.error failure, t)
        | .ok configuration =>
          carryOut t (imageOf settings.base payload) configuration.features request := by
  rw [execute, onTree_bind, onTree_loadImage]
  cases payloadIn t settings with
  | error failure => rfl
  | ok payload =>
    simp only [Except.map]
    rw [onTree_bind, onTree_loadConfiguration]
    cases configurationIn t settings with
    | error failure => rfl
    | ok configuration =>
      cases request with
      | sections => rfl
      | range r =>
        simp only [carryOut]
        rw [onTree_bind, onTree_liftM]
        cases rangeText (imageOf settings.base payload) configuration.features r with
        | error failure => rfl
        | ok listing =>
          cases r.out with
          | none => rfl
          | some path =>
            simp only [deliver]
            rw [onTree_bind, onTree_write]
            cases t.target path <;> rfl

/-- A request, once payload and configuration are loaded. -/
theorem onTree_execute_of_loads (h : Loads t settings payload configuration) (request : Request) :
    onTree t (execute fileSystem settings request) =
      carryOut t (imageOf settings.base payload) configuration.features request := by
  obtain ⟨hpayload, hconfiguration⟩ := loads_iff.mp h
  simp only [onTree_execute, hpayload, hconfiguration]

/-- A run that succeeds has loaded both. -/
theorem exists_loads_of_onTree_eq_ok {output : String}
    (h : onTree t (execute fileSystem settings request) = (.ok output, t')) :
    ∃ payload configuration, Loads t settings payload configuration := by
  rw [onTree_execute] at h
  cases hpayload : payloadIn t settings with
  | error failure => simp [hpayload] at h
  | ok payload =>
    cases hconfiguration : configurationIn t settings with
    | error failure => simp [hpayload, hconfiguration] at h
    | ok configuration => exact ⟨payload, configuration, loads_iff.mpr ⟨hpayload, hconfiguration⟩⟩

theorem tree_eq_of_deliver_eq_error {out : Option String} {listing : String} {failure : Failure}
    (h : deliver t out listing = (.error failure, t')) : t' = t := by
  cases out with
  | none => simp [deliver] at h
  | some path =>
    cases htarget : t.target path with
    | ok place => simp [deliver, htarget] at h
    | error e =>
      simp only [deliver, htarget, Prod.mk.injEq] at h
      exact h.2.symm

theorem tree_eq_of_carryOut_eq_error {image : Image} {features : Features} {failure : Failure}
    (h : carryOut t image features request = (.error failure, t')) : t' = t := by
  cases request with
  | sections => simp [carryOut] at h
  | range r =>
    cases htext : rangeText image features r with
    | error failure =>
      simp only [carryOut, htext, Prod.mk.injEq] at h
      exact h.2.symm
    | ok listing =>
      simp only [carryOut, htext] at h
      exact tree_eq_of_deliver_eq_error h

/-- What fails leaves all files as they were. -/
theorem tree_eq_of_onTree_eq_error {failure : Failure}
    (h : onTree t (execute fileSystem settings request) = (.error failure, t')) : t' = t := by
  rw [onTree_execute] at h
  cases hpayload : payloadIn t settings with
  | error failure =>
    simp only [hpayload, Prod.mk.injEq] at h
    exact h.2.symm
  | ok payload =>
    cases hconfiguration : configurationIn t settings with
    | error failure =>
      simp only [hpayload, hconfiguration, Prod.mk.injEq] at h
      exact h.2.symm
    | ok configuration =>
      simp only [hpayload, hconfiguration] at h
      exact tree_eq_of_carryOut_eq_error h

/-! ### How a run ends -/

/-- A run answers with what was done: it prints what is to be printed or complains of a failure. -/
def answer : Except Failure String × FileTree → Outcome × FileTree
  | (.ok output, t) => (⟨0, output, none⟩, t)
  | (.error failure, t) => (⟨1, "", some failure.message⟩, t)

theorem run_of_ofArguments {args : List String}
    (hargs : Invocation.ofArguments args = .run settings request) (t : FileTree) :
    (run fileSystem args).run t = answer (onTree t (execute fileSystem settings request)) := by
  simp only [run, hargs, StateT.run_bind, onTree]
  rcases (execute fileSystem settings request).run.run t with ⟨_ | _, t'⟩ <;> rfl

/-- **A run that fails changes no file.** -/
theorem tree_eq_of_exitCode_ne_zero {args : List String} {outcome : Outcome}
    (hrun : (run fileSystem args).run t = (outcome, t')) (hcode : outcome.exitCode ≠ 0) :
    t' = t := by
  cases hargs : Invocation.ofArguments args with
  | run settings request =>
    rw [run_of_ofArguments hargs] at hrun
    rcases hdone : onTree t (execute fileSystem settings request) with ⟨failure | output, t''⟩
    · rw [hdone, answer, Prod.mk.injEq] at hrun
      rw [← hrun.2]
      exact tree_eq_of_onTree_eq_error hdone
    · rw [hdone, answer, Prod.mk.injEq] at hrun
      exact absurd (congrArg Outcome.exitCode hrun.1).symm hcode
  | _ =>
    simp only [run, hargs] at hrun
    exact (Prod.mk.inj hrun).2.symm

/-- What is delivered is not mistaken for a range that is not mapped. -/
theorem answer_deliver_ne (t : FileTree) (out : Option String) (listing : String)
    (address : UInt64) : answer (deliver t out listing) ≠
      (⟨1, "", some (Failure.unmapped address).message⟩, t) := by
  cases out with
  | none => simp [deliver, answer]
  | some path =>
    cases htarget : t.target path with
    | ok place => simp [deliver, htarget, answer]
    | error e =>
      have hmessage := FileError.message_ne_unmapped
        (fun message he => t.target_ne_other path message (he ▸ htarget)) address
      simp [deliver, htarget, answer, hmessage]

end Command

end TriCore
