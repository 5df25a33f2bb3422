import TriCore.Configuration
import TriCore.Proofs.Features.Elements
import TriCore.Proofs.Json.RoundTrip

/-!
# Configurations in JSON

A configuration is written as an object with its features as text, and it is read back from there.
Entries under other keys are passed over one by one, so they may stand before the features and
behind them. If there are no features among the entries, nothing but the default is left in the end.
The default has every revision with a name and is not the empty set, which has a written form of its
own.

## Main definitions

* `Configuration.Foreign` : entries that do not count.
* `Configuration.read?` : the configuration in a text.

## Main results

* `Configuration.ofEntries?_foreign_append` : foreign entries are passed over.
* `Configuration.read?_write` : a configuration is read back.
* `Configuration.eq_complete_of_ofEntries?` : without features there is only one configuration.
* `Configuration.json_faithful` : configurations survive JSON.
-/

namespace TriCore

open Text

/-! ### Sets of features -/

theorem Features.ofJson?_string (text : String) : ofJson? (.string text) = ofText? text := rfl

theorem Features.isUnion_all : all.IsUnion (named.map Prod.snd) := by
  have hall : all = (named.map Prod.snd).foldl union empty := rfl
  rw [hall]
  exact isUnion_foldl _

/-- Texts with the same elements denote the same set. -/
theorem Features.ofText?_eq_of_mem_iff {text text' : String} {sets sets' : List Features}
    (h : Lists text.toList sets) (h' : Lists text'.toList sets')
    (hmem : ∀ s, s ∈ sets ↔ s ∈ sets') : ofText? text = ofText? text' := by
  have hunion : (sets'.foldl union empty).IsUnion sets := by
    intro i
    rw [isUnion_foldl sets' i]
    simp only [hmem]
  rw [ofText?_of_lists h, ofText?_of_lists h', (isUnion_foldl sets).unique hunion]

namespace Configuration

variable {known : Option Features} {value : Json} {c : Configuration}
  {entries before after : List (Option String × Json)}

/-! ### Entries -/

/-- The key of an entry is a text other than `features`. -/
def Foreign (entry : Option String × Json) : Prop := ∃ key, key ≠ "features" ∧ entry.1 = some key

theorem ofEntries?_foreign_cons {key : String} (hkey : key ≠ "features") :
    ofEntries? known ((some key, value) :: entries) = ofEntries? known entries := by
  rcases known with - | set <;> rw [ofEntries?, if_neg hkey]

theorem ofEntries?_foreign_append (hbefore : ∀ entry ∈ before, Foreign entry)
    (entries : List (Option String × Json)) :
    ofEntries? known (before ++ entries) = ofEntries? known entries := by
  induction before with
  | nil => rfl
  | cons entry before ih =>
    obtain ⟨first, value⟩ := entry
    obtain ⟨⟨key, hkey, rfl⟩, hrest⟩ := List.forall_mem_cons.mp hbefore
    rw [List.cons_append, ofEntries?_foreign_cons hkey, ih hrest]

/-- Foreign entries leave what is known so far. -/
theorem ofEntries?_of_foreign (h : ∀ entry ∈ entries, Foreign entry) :
    ofEntries? known entries = some ⟨known.getD .all⟩ := by
  rw [← List.append_nil entries, ofEntries?_foreign_append h]
  rfl

/-- The features are found among foreign entries. -/
theorem ofEntries?_features (hbefore : ∀ entry ∈ before, Foreign entry)
    (hafter : ∀ entry ∈ after, Foreign entry) :
    ofEntries? none (before ++ (some "features", value) :: after) =
      (Features.ofJson? value).map Configuration.mk := by
  rw [ofEntries?_foreign_append hbefore, ofEntries?, if_pos rfl]
  cases hvalue : Features.ofJson? value with
  | none => rfl
  | some set => exact ofEntries?_of_foreign hafter

/-- Whatever the entries are, they add nothing to what is known if none of them has features. -/
theorem eq_of_ofEntries? (hkey : some "features" ∉ entries.map Prod.fst)
    (h : ofEntries? known entries = some c) : c = ⟨known.getD .all⟩ := by
  induction entries with
  | nil => exact (Option.some.inj h).symm
  | cons entry entries ih =>
    obtain ⟨hentry, hrest⟩ := not_or.mp (mt List.mem_cons.mpr hkey)
    obtain ⟨first, value⟩ := entry
    rcases first with - | key
    · -- A key without a text ends the reading.
      cases h
    · have hne : key ≠ "features" := fun heq => hentry (heq ▸ rfl)
      rw [ofEntries?_foreign_cons hne] at h
      exact ih hrest h

/-! ### Texts -/

/-- The configuration in a text. -/
def read? (text : String) : Option Configuration := (Json.parse? text).bind ofJson?

theorem plain_toJson (c : Configuration) : c.toJson.Plain := by
  refine Json.plain_record fun entry hentry => ?_
  rw [List.mem_singleton.mp hentry]
  exact .text _

theorem ofJson?_toJson (c : Configuration) : ofJson? c.toJson = some c := by
  have hnone : ∀ entry ∈ ([] : List (Option String × Json)), Foreign entry :=
    fun _ h => absurd h List.not_mem_nil
  refine (ofEntries?_features hnone hnone).trans ?_
  rw [Features.toJson, Features.ofJson?_string, Features.ofText?_text]
  rfl

/-- A configuration is read back from the text that it is written as. -/
theorem read?_write (c : Configuration) (style : Json.Style) :
    read? (String.ofList (Json.write style 0 c.toJson)) = some c := by
  rw [read?, Json.parse?_write c.plain_toJson, Option.bind_some, ofJson?_toJson]

/-- **Configurations survive JSON.** Each is read back from the text that it is written as, in
either style. A text of any number of elements is read as their union, whatever entries stand around
it, and it does not matter in which order the elements are given, or how often. An object without
features is read as the configuration with every named revision, which is not the empty set, and in
no case as another one. -/
theorem json_faithful :
    (∀ (c : Configuration) (style : Json.Style),
      read? (String.ofList (Json.write style 0 c.toJson)) = some c) ∧
    (∀ (text : String) (sets : List Features), Features.Lists text.toList sets →
      ∃ set : Features, set.IsUnion sets ∧ ∀ before after : List (Option String × Json),
        (∀ entry ∈ before, Foreign entry) → (∀ entry ∈ after, Foreign entry) →
        ofJson? (.object (before ++ (some "features", .string text) :: after)) = some ⟨set⟩) ∧
    (∀ (text text' : String) (sets sets' : List Features), Features.Lists text.toList sets →
      Features.Lists text'.toList sets' → (∀ s, s ∈ sets ↔ s ∈ sets') →
      Features.ofText? text = Features.ofText? text') ∧
    (∀ entries : List (Option String × Json), (∀ entry ∈ entries, Foreign entry) →
      ofJson? (.object entries) = some complete) ∧
    (∀ (entries : List (Option String × Json)) (c : Configuration),
      some "features" ∉ entries.map Prod.fst → ofJson? (.object entries) = some c →
      c = complete) ∧
    complete.features.IsUnion (Features.named.map Prod.snd) ∧ complete.features ≠ .empty := by
  refine ⟨read?_write, fun text sets h => ?_, fun _ _ _ _ => Features.ofText?_eq_of_mem_iff,
    fun _ => ofEntries?_of_foreign, fun _ _ => eq_of_ofEntries?, Features.isUnion_all, by decide⟩
  refine ⟨_, Features.isUnion_foldl sets, fun before after hbefore hafter => ?_⟩
  rw [ofJson?, ofEntries?_features hbefore hafter, Features.ofJson?_string,
    Features.ofText?_of_lists h]
  rfl

/-- The set has a number among its elements here, and a name that is given twice. An entry before it
does not count, nor does one behind it whose value has no text. -/
theorem json_faithful_repeated :
    ∃ set : Features, set.IsUnion [⟨0x80000000⟩, .tc16, .tc16] ∧
      ofJson? (.object ([(some "core", Json.bool true)] ++
        (some "features", Json.string " 0x80000000 |TC16| TC16") ::
          [(some "note", Json.text none)])) = some ⟨set⟩ := by
  have hnumber : Features.Part " 0x80000000 ".toList ⟨0x80000000⟩ :=
    ⟨"0x80000000".toList, ⟨[' '], [' '], rfl, List.all_eq_true.mp rfl, List.all_eq_true.mp rfl⟩,
      .number (isNumeral_hexDigits 0x80000000) (by decide)⟩
  have hname : Features.Element "TC16".toList .tc16 := .name (by decide)
  have hspaced : Features.Part " TC16".toList .tc16 :=
    ⟨_, ⟨[' '], [], rfl, List.all_eq_true.mp rfl, List.all_eq_true.mp rfl⟩, hname⟩
  have hlists : Features.Lists " 0x80000000 |TC16| TC16".toList [⟨0x80000000⟩, .tc16, .tc16] :=
    .bars (List.cons_ne_nil _ _) (.cons hnumber (.cons ⟨_, .self _, hname⟩ (.cons hspaced .nil)))
  have hforeign {key : String} {value : Json} (hkey : key ≠ "features") :
      ∀ entry ∈ [(some key, value)], Foreign entry := fun entry hentry =>
    ⟨key, hkey, congrArg Prod.fst (List.mem_singleton.mp hentry)⟩
  obtain ⟨set, hunion, hread⟩ := json_faithful.2.1 _ _ hlists
  exact ⟨set, hunion, hread _ _ (hforeign (by decide)) (hforeign (by decide))⟩

end Configuration

end TriCore
