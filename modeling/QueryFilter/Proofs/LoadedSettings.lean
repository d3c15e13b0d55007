import Mathlib.Data.List.Basic
import QueryFilter.Proofs.CallFailures
import QueryFilter.Proofs.PaddedIntegers
import QueryFilter.Proofs.Paging
import QueryFilter.Proofs.PagingCalls
import QueryFilter.Proofs.Recording

set_option relaxedAutoImplicit false
set_option autoImplicit false

/-!
# Loading settings

Settings come from a JSON text and from two variables of the environment. They are validated twice,
before the variables are looked at and after, so that a variable cannot repair a number that is out of
range in the text. The two variables are both read before the second validation. This fixes the order
in which one fault hides another, and it leaves no way for a number out of range to get to the pages.

## Main definitions

* `QueryFilter.Json.Node.field`, `QueryFilter.Json.Node.IsRecord` — the fields of a document, by place
  or by name.
* `QueryFilter.Settings.IsGiven` — the settings that a JSON text gives.
* `QueryFilter.Settings.IsOverridden` — the number that stands after an override.
* `QueryFilter.Settings.OutOfRange` — what is wrong with settings that are not valid.
* `QueryFilter.Settings.LoadingFails` — the errors of loading settings, in their order.

## Main results

* `QueryFilter.Json.fields?_eq_some_iff` — the fields that are read are those of the document.
* `QueryFilter.Settings.decode?_eq_some_iff` — the settings that are read are those that are given.
* `QueryFilter.Settings.validate_eq_error_iff`, `QueryFilter.Settings.overridden_eq_error_iff` — the
  faults of a validation and of an override.
* `QueryFilter.Settings.loaded_in_range` — the settings that are loaded, and the errors.
-/

namespace QueryFilter

/-! ## Fields -/

namespace Json

/-- The document of a field, if there is one: the item at its place, or the member with its name. -/
def Node.field (place : Nat) (name : String) : Node → Option Node
  | .array items => items[place]?
  | .object members =>
    (members.find? fun member => member.1.text? = some name).map Prod.snd
  | _ => none

/-- A document gives fields with some names: it is an array of at most as many items, or an object
whose names can be read and in which no field is given twice. -/
def Node.IsRecord (names : List String) : Node → Prop
  | .array items => items.length ≤ names.length
  | .object members =>
    (∀ member ∈ members, ∃ name, member.1.text? = some name) ∧
      ∀ name ∈ names, members.countP (fun member => member.1.text? = some name) ≤ 1
  | _ => False

/-- The members with a name are the same before their names are read. -/
theorem map_snd_filter_of_named? {members : List (Quoted × Node)} {named : List (String × Node)}
    (h : members.mapM named? = some named) (name : String) :
    (named.filter fun member => [name].contains member.1).map Prod.snd
      = (members.filter fun member => member.1.text? = some name).map Prod.snd := by
  induction members generalizing named with
  | nil =>
    obtain rfl : [] = named := by simpa using h
    rfl
  | cons member members ih =>
    simp only [List.mapM_cons, Option.bind_eq_bind, Option.bind_eq_some_iff, Option.pure_def,
      Option.some.injEq] at h
    obtain ⟨first, hfirst, rest, hrest, rfl⟩ := h
    obtain ⟨found, hfound, rfl⟩ := Option.map_eq_some_iff.1 hfirst
    have htest : [name].contains found = decide (member.1.text? = some name) := by
      rw [hfound]
      simp
    simp only [List.filter_cons, htest]
    split
    · rw [List.map_cons, List.map_cons, ih hrest]
    · exact ih hrest

/-- A field is read when it is given once at most. -/
theorem field?_of_named? {members : List (Quoted × Node)} {named : List (String × Node)}
    (h : members.mapM named? = some named) (name : String) (place : Nat) :
    field? named [name]
      = if members.countP (fun member => member.1.text? = some name) ≤ 1
        then some (Node.field place name (.object members)) else none := by
  have hfilter := map_snd_filter_of_named? h name
  have hlength : members.countP (fun member => member.1.text? = some name)
      = (named.filter fun member => [name].contains member.1).length := by
    have hmap := congrArg List.length hfilter
    rw [List.length_map, List.length_map] at hmap
    rw [List.countP_eq_length_filter, hmap]
  rw [Node.field, ← List.head?_filter, ← List.head?_map, hlength, ← hfilter, field?]
  cases named.filter fun member => [name].contains member.1 with
  | nil => rfl
  | cons first rest =>
    cases rest with
    | nil => rfl
    | cons second rest => simp

/-- What is read member by member under a condition. -/
theorem mapM_ite_eq_some_iff {α β : Type} {p : α → Prop} [DecidablePred p] {f : α → β}
    {list : List α} {results : List β} :
    (list.mapM fun member => if p member then some (f member) else none) = some results
      ↔ (∀ member ∈ list, p member) ∧ results = list.map f := by
  induction list generalizing results with
  | nil => simp [eq_comm]
  | cons member list ih =>
    simp only [List.mapM_cons, Option.bind_eq_bind, Option.bind_eq_some_iff, Option.pure_def,
      Option.some.injEq, ih, List.forall_mem_cons, List.map_cons]
    constructor
    · rintro ⟨first, hfirst, rest, ⟨hrest, rfl⟩, rfl⟩
      split at hfirst
      · next hp =>
        cases hfirst
        exact ⟨⟨hp, hrest⟩, rfl⟩
      · contradiction
    · rintro ⟨⟨hp, hrest⟩, rfl⟩
      exact ⟨f member, if_pos hp, _, ⟨hrest, rfl⟩, rfl⟩

/-- The items of an array are its fields, and the last fields may be missing. -/
theorem mapIdx_field_array {items : List Node} {names : List String}
    (h : items.length ≤ names.length) :
    (names.mapIdx fun place name => (Node.array items).field place name)
      = items.map some ++ List.replicate (names.length - items.length) none := by
  apply List.ext_getElem
  · simp
    omega
  · intro place hleft hright
    rw [List.getElem_mapIdx, Node.field, List.getElem_append]
    split
    · next hplace =>
      rw [List.length_map] at hplace
      rw [List.getElem_map, List.getElem?_eq_getElem hplace]
    · next hplace =>
      rw [List.length_map] at hplace
      rw [List.getElem_replicate, List.getElem?_eq_none (Nat.not_lt.1 hplace)]

/-- The fields of an object do not depend on their places. -/
theorem mapIdx_field_object (members : List (Quoted × Node)) (names : List String) :
    (names.mapIdx fun place name => (Node.object members).field place name)
      = names.map fun name => (Node.object members).field 0 name := by
  apply List.ext_getElem
  · simp
  · intro place hleft hright
    rw [List.getElem_mapIdx, List.getElem_map]
    rfl

/-- The fields of an object are read when none of them is given twice. -/
theorem mapM_field?_eq_some_iff {members : List (Quoted × Node)} {named : List (String × Node)}
    (h : members.mapM named? = some named) {names : List String} {found : List (Option Node)} :
    (names.map fun name => [name]).mapM (field? named) = some found
      ↔ (∀ name ∈ names, members.countP (fun member => member.1.text? = some name) ≤ 1) ∧
        found = names.mapIdx fun place name => (Node.object members).field place name := by
  rw [mapIdx_field_object, List.mapM_map]
  simp only [Function.comp_def, field?_of_named? h _ 0]
  exact mapM_ite_eq_some_iff

/-- **The fields that are read are those of the document**, if it gives fields with these names. -/
theorem fields?_eq_some_iff {names : List String} {node : Node} {found : List (Option Node)} :
    fields? (names.map fun name => [name]) node = some found
      ↔ node.IsRecord names ∧ found = names.mapIdx fun place name => node.field place name := by
  cases node with
  | array items =>
    rw [fields?, List.length_map, Node.IsRecord]
    constructor
    · intro h
      split at h
      · next hlength =>
        cases h
        exact ⟨hlength, (mapIdx_field_array hlength).symm⟩
      · contradiction
    · rintro ⟨hlength, rfl⟩
      rw [if_pos hlength, mapIdx_field_array hlength]
  | object members =>
    have hnames : (∃ named, members.mapM named? = some named)
        ↔ ∀ member ∈ members, ∃ name, member.1.text? = some name := by
      simp only [exists_mapM_eq_some_iff, named?, Option.map_eq_some_iff]
      simp
    have hbind : fields? (names.map fun name => [name]) (.object members)
        = (members.mapM named?).bind fun named =>
          (names.map fun name => [name]).mapM (field? named) := rfl
    rw [hbind, Option.bind_eq_some_iff, Node.IsRecord]
    constructor
    · rintro ⟨named, hnamed, hfound⟩
      obtain ⟨hcount, rfl⟩ := (mapM_field?_eq_some_iff hnamed).1 hfound
      exact ⟨⟨hnames.1 ⟨named, hnamed⟩, hcount⟩, rfl⟩
    · rintro ⟨⟨hmembers, hcount⟩, rfl⟩
      obtain ⟨named, hnamed⟩ := hnames.2 hmembers
      exact ⟨named, hnamed, (mapM_field?_eq_some_iff hnamed).2 ⟨hcount, rfl⟩⟩
  | null | bool _ | number _ | string _ =>
    constructor
    · intro h
      contradiction
    · rintro ⟨hrecord, -⟩
      exact hrecord.elim

/-! ## Values -/

/-- The value of a field: what its document stands for, or the default where it is missing. -/
inductive Gives {α : Type} (StandsFor : Node → α → Prop) (default : α) : Option Node → α → Prop
  | missing : Gives StandsFor default none default
  | given {node : Node} {value : α} (h : StandsFor node value) :
    Gives StandsFor default (some node) value

/-- A number without fraction and exponent stands for an integer. -/
def Node.IsInteger (node : Node) (n : Int64) : Prop :=
  ∃ literal, node = .number literal ∧ Number.ofLiteral? literal = some (.integer n.toInt)

/-- A string stands for a text. -/
def Node.IsText (node : Node) (text : String) : Prop :=
  ∃ quoted, node = .string quoted ∧ quoted.text? = some text

/-- An array of strings stands for their texts. -/
def Node.IsTexts (node : Node) (texts : List String) : Prop :=
  ∃ items, node = .array items ∧ List.Forall₂ Node.IsText items texts

/-- A field that takes a default is read as its value. -/
theorem orDefault?_eq_some_iff {α : Type} {read : Reader α} {StandsFor : Node → α → Prop}
    {depth : Nat} (h : ∀ node value, read depth node = some value ↔ StandsFor node value)
    {default value : α} {field : Option Node} :
    orDefault? default read depth field = some value ↔ Gives StandsFor default field value := by
  cases field with
  | none =>
    constructor
    · intro heq
      cases heq
      exact .missing
    · rintro ⟨⟩
      rfl
  | some node =>
    rw [orDefault?, h]
    constructor
    · exact .given
    · rintro (_ | hvalue)
      exact hvalue

/-- A string is read as its text. -/
theorem string?_eq_some_iff {depth : Nat} {node : Node} {text : String} :
    string? depth node = some text ↔ node.IsText text := by
  cases node with
  | string quoted =>
    constructor
    · intro h
      exact ⟨quoted, rfl, h⟩
    · rintro ⟨_, ⟨rfl⟩, h⟩
      exact h
  | null | bool _ | number _ | array _ | object _ => exact ⟨nofun, nofun⟩

/-- An array of strings is read as their texts. -/
theorem list?_string?_eq_some_iff {depth : Nat} {node : Node} {texts : List String} :
    list? string? (depth + 1) node = some texts ↔ node.IsTexts texts := by
  cases node with
  | array items =>
    rw [list?, mapM_eq_some_iff]
    simp only [string?_eq_some_iff]
    constructor
    · intro h
      exact ⟨items, rfl, h⟩
    · rintro ⟨_, ⟨rfl⟩, h⟩
      exact h
  | null | bool _ | number _ | string _ | object _ => exact ⟨nofun, nofun⟩

end Json

namespace Settings

open Json

/-! ## Settings in JSON -/

/-- The settings that a document gives, as an array or as an object. -/
structure IsGivenBy (settings : Settings) (node : Node) : Prop where
  isRecord : node.IsRecord fieldNames
  rows : Gives Node.IsInteger default.defaultRows (node.field 0 "default_rows")
    settings.defaultRows
  first : Gives Node.IsInteger default.defaultFirst (node.field 1 "default_first")
    settings.defaultFirst
  keywords : Gives Node.IsTexts default.numericKeywords (node.field 2 "numeric_keywords")
    settings.numericKeywords

/-- The settings that a JSON text gives. -/
def IsGiven (source : String) (settings : Settings) : Prop :=
  ∃ node, Node.ofText? source = some node ∧ settings.IsGivenBy node

/-- The settings that are read are those that the document gives. -/
theorem read?_eq_some_iff {depth : Nat} {node : Node} {settings : Settings} :
    read? (depth + 2) node = some settings ↔ settings.IsGivenBy node := by
  have hinteger (node : Node) (n : Int64) :
      int64? (depth + 1) node = some n ↔ node.IsInteger n := int64?_eq_some_iff
  have htexts (node : Node) (texts : List String) :
      list? string? (depth + 1) node = some texts ↔ node.IsTexts texts := list?_string?_eq_some_iff
  have hfields : (fieldNames.mapIdx fun place name => node.field place name)
      = [node.field 0 "default_rows", node.field 1 "default_first",
          node.field 2 "numeric_keywords"] := rfl
  rw [read?, Option.bind_eq_bind, Option.bind_eq_some_iff]
  simp only [fields?_eq_some_iff, hfields]
  constructor
  · rintro ⟨found, ⟨hrecord, rfl⟩, h⟩
    simp only [Option.bind_eq_bind, Option.bind_eq_some_iff, Option.some.injEq] at h
    obtain ⟨rows, hrows, first, hfirst, keywords, hkeywords, rfl⟩ := h
    exact ⟨hrecord, (orDefault?_eq_some_iff hinteger).1 hrows,
      (orDefault?_eq_some_iff hinteger).1 hfirst, (orDefault?_eq_some_iff htexts).1 hkeywords⟩
  · rintro ⟨hrecord, hrows, hfirst, hkeywords⟩
    refine ⟨_, ⟨hrecord, rfl⟩, ?_⟩
    simp only [(orDefault?_eq_some_iff hinteger).2 hrows, (orDefault?_eq_some_iff hinteger).2 hfirst,
      (orDefault?_eq_some_iff htexts).2 hkeywords, Option.bind_eq_bind, Option.bind_some]

/-- **The settings that are decoded are those that the text gives.** -/
theorem decode?_eq_some_iff {source : String} {settings : Settings} :
    decode? read? source = some settings ↔ IsGiven source settings := by
  rw [decode?, Option.bind_eq_some_iff, maxDepth]
  simp only [read?_eq_some_iff, IsGiven]

/-! ## Validation -/

/-- What is wrong with settings that are not valid. The rows hide the first row. -/
inductive OutOfRange (settings : Settings) : SettingsFault → Prop
  | rows (h : settings.defaultRows.toInt < 1) :
    OutOfRange settings (.rowsNotPositive settings.defaultRows)
  | first (hrows : 1 ≤ settings.defaultRows.toInt) (h : settings.defaultFirst.toInt < 1) :
    OutOfRange settings (.firstBelowOne settings.defaultFirst)

/-- **The faults of a validation.** -/
theorem validate_eq_error_iff {settings : Settings} {error : Error} :
    settings.validate = .error error
      ↔ ∃ fault, settings.OutOfRange fault ∧ error = .invalidSettings fault := by
  rw [validate]
  constructor
  · intro h
    split at h
    · next hrows =>
      cases h
      exact ⟨_, .rows (by omega), rfl⟩
    · next hrows =>
      split at h
      · next hfirst =>
        cases h
        exact ⟨_, .first (by omega) hfirst, rfl⟩
      · contradiction
  · rintro ⟨fault, hfault, rfl⟩
    cases hfault with
    | rows hrows => rw [if_pos (by omega)]
    | first hrows hfirst => rw [if_neg (by omega), if_pos hfirst]

/-- The settings of a text are those that it gives, if they are valid. -/
theorem ofJson_eq_ok_iff {source : String} {settings : Settings} :
    ofJson source = .ok settings ↔ IsGiven source settings ∧ settings.IsValid := by
  rw [ofJson]
  constructor
  · intro h
    split at h
    · contradiction
    · next given hgiven =>
      obtain ⟨hvalid, rfl⟩ := validate_eq_ok_iff.1 h
      exact ⟨decode?_eq_some_iff.1 hgiven, hvalid⟩
  · rintro ⟨hgiven, hvalid⟩
    simp only [decode?_eq_some_iff.2 hgiven]
    exact validate_eq_ok_iff.2 ⟨hvalid, rfl⟩

/-- A text gives no settings, or settings that are out of range. -/
theorem ofJson_eq_error_iff {source : String} {error : Error} :
    ofJson source = .error error ↔
      ((∀ settings, ¬ IsGiven source settings) ∧ error = .malformed (decodeFault source)) ∨
        ∃ given fault, IsGiven source given ∧ given.OutOfRange fault ∧
          error = .invalidSettings fault := by
  simp only [← decode?_eq_some_iff, ofJson]
  cases decode? read? source with
  | none => simp [eq_comm]
  | some given => simp [validate_eq_error_iff]

/-! ## Overrides -/

/-- The number that stands after an override: the one that the text denotes between blanks, or the
present one where there is no text. -/
def IsOverridden (present n : Int64) : Option String → Prop
  | none => n = present
  | some text => Text.Decimal.DenotesTrimmed text n.toInt

/-- What is overridden. -/
theorem overridden_eq_ok_iff {origin : String} {present n : Int64} {text : Option String} :
    overridden origin present text = .ok n ↔ IsOverridden present n text := by
  cases text with
  | none => simp [overridden, IsOverridden, eq_comm]
  | some text =>
    rw [overridden, IsOverridden, ← Text.Decimal.toInt64?_trim_eq_some_iff]
    cases Text.Decimal.toInt64? (Text.trim text.toList) <;> simp

/-- **The fault of an override** is a text that denotes no integer of 64 bits. It is reported as it
is, with its blanks. -/
theorem overridden_eq_error_iff {origin : String} {present : Int64} {text : Option String}
    {error : Error} :
    overridden origin present text = .error error
      ↔ ∃ found, text = some found ∧
          (∀ n : Int64, ¬ Text.Decimal.DenotesTrimmed found n.toInt) ∧
          error = .invalidSettings (.notANumber origin found) := by
  cases text with
  | none => simp [overridden]
  | some text =>
    have hnone : (∀ n : Int64, ¬ Text.Decimal.DenotesTrimmed text n.toInt)
        ↔ Text.Decimal.toInt64? (Text.trim text.toList) = none := by
      simp only [← Text.Decimal.toInt64?_trim_eq_some_iff, Option.eq_none_iff_forall_ne_some]
    rw [overridden]
    cases hread : Text.Decimal.toInt64? (Text.trim text.toList) with
    | none => simp [hnone, hread, eq_comm]
    | some n => simp [hnone, hread]

/-- The settings after the overrides. -/
theorem withOverrides_eq_ok_iff {settings result : Settings} {overrides : Overrides} :
    settings.withOverrides overrides = .ok result
      ↔ IsOverridden settings.defaultRows result.defaultRows overrides.rows ∧
        IsOverridden settings.defaultFirst result.defaultFirst overrides.first ∧
        result.numericKeywords = settings.numericKeywords ∧ result.IsValid := by
  simp only [withOverrides, Error.bind_eq_ok_iff, overridden_eq_ok_iff, validate_eq_ok_iff]
  constructor
  · rintro ⟨rows, hrows, first, hfirst, hvalid, rfl⟩
    exact ⟨hrows, hfirst, rfl, hvalid⟩
  · rintro ⟨hrows, hfirst, hkeywords, hvalid⟩
    have hresult : result = { settings with
        defaultRows := result.defaultRows, defaultFirst := result.defaultFirst } := by
      rw [← hkeywords]
    exact ⟨result.defaultRows, hrows, result.defaultFirst, hfirst, hresult ▸ hvalid, hresult⟩

/-! ## Loading -/

/-- The errors of loading settings. Every constructor says that what comes before it is right. -/
inductive LoadingFails (source : String) (overrides : Overrides) : Error → Prop
  /-- The text gives no settings. -/
  | malformed (h : ∀ settings, ¬ IsGiven source settings) :
      LoadingFails source overrides (.malformed (decodeFault source))
  /-- The settings of the text are out of range, whatever the overrides are. -/
  | given {given : Settings} {fault : SettingsFault} (hgiven : IsGiven source given)
      (hfault : given.OutOfRange fault) :
      LoadingFails source overrides (.invalidSettings fault)
  /-- The rows are overridden by a text that is no integer of 64 bits. -/
  | rows {given : Settings} {text : String} (hgiven : IsGiven source given)
      (hvalid : given.IsValid) (htext : overrides.rows = some text)
      (h : ∀ n : Int64, ¬ Text.Decimal.DenotesTrimmed text n.toInt) :
      LoadingFails source overrides (.invalidSettings (.notANumber rowsVariable text))
  /-- The rows are right, and the first row is overridden by such a text. -/
  | first {given : Settings} {rows : Int64} {text : String} (hgiven : IsGiven source given)
      (hvalid : given.IsValid) (hrows : IsOverridden given.defaultRows rows overrides.rows)
      (htext : overrides.first = some text)
      (h : ∀ n : Int64, ¬ Text.Decimal.DenotesTrimmed text n.toInt) :
      LoadingFails source overrides (.invalidSettings (.notANumber firstVariable text))
  /-- Both numbers are there, and they are out of range. -/
  | combined {given : Settings} {rows first : Int64} {fault : SettingsFault}
      (hgiven : IsGiven source given) (hvalid : given.IsValid)
      (hrows : IsOverridden given.defaultRows rows overrides.rows)
      (hfirst : IsOverridden given.defaultFirst first overrides.first)
      (hfault : OutOfRange { given with defaultRows := rows, defaultFirst := first } fault) :
      LoadingFails source overrides (.invalidSettings fault)

/-- **The settings that are loaded.** -/
theorem load_eq_ok_iff {source : String} {overrides : Overrides} {result : Settings} :
    (ofJson source >>= fun given => given.withOverrides overrides) = .ok result
      ↔ ∃ given, IsGiven source given ∧ given.IsValid ∧
          IsOverridden given.defaultRows result.defaultRows overrides.rows ∧
          IsOverridden given.defaultFirst result.defaultFirst overrides.first ∧
          result.numericKeywords = given.numericKeywords ∧ result.IsValid := by
  simp only [Error.bind_eq_ok_iff, ofJson_eq_ok_iff, withOverrides_eq_ok_iff, and_assoc]

/-- **The errors of loading, in their order.** -/
theorem load_eq_error_iff {source : String} {overrides : Overrides} {error : Error} :
    (ofJson source >>= fun given => given.withOverrides overrides) = .error error
      ↔ LoadingFails source overrides error := by
  simp only [Error.bind_eq_error_iff, ofJson_eq_ok_iff, ofJson_eq_error_iff, withOverrides,
    overridden_eq_ok_iff, overridden_eq_error_iff, validate_eq_error_iff]
  constructor
  · rintro ((⟨hnone, rfl⟩ | ⟨given, fault, hgiven, hfault, rfl⟩) | ⟨given, ⟨hgiven, hvalid⟩, h⟩)
    · exact .malformed hnone
    · exact .given hgiven hfault
    · rcases h with ⟨text, htext, hnone, rfl⟩ | ⟨rows, hrows, h⟩
      · exact .rows hgiven hvalid htext hnone
      · rcases h with ⟨text, htext, hnone, rfl⟩ | ⟨first, hfirst, fault, hfault, rfl⟩
        · exact .first hgiven hvalid hrows htext hnone
        · exact .combined hgiven hvalid hrows hfirst hfault
  · intro h
    cases h with
    | malformed hnone => exact .inl (.inl ⟨hnone, rfl⟩)
    | given hgiven hfault => exact .inl (.inr ⟨_, _, hgiven, hfault, rfl⟩)
    | rows hgiven hvalid htext hnone =>
      exact .inr ⟨_, ⟨hgiven, hvalid⟩, .inl ⟨_, htext, hnone, rfl⟩⟩
    | first hgiven hvalid hrows htext hnone =>
      exact .inr ⟨_, ⟨hgiven, hvalid⟩, .inr ⟨_, hrows, .inl ⟨_, htext, hnone, rfl⟩⟩⟩
    | combined hgiven hvalid hrows hfirst hfault =>
      exact .inr ⟨_, ⟨hgiven, hvalid⟩, .inr ⟨_, hrows, .inr ⟨_, hfirst, _, hfault, rfl⟩⟩⟩

/-- A command is performed with valid settings, or it is not performed because its settings fail. -/
theorem runCommand_eq_perform_or (world : Cli.World) (config : Option String)
    (command : Cli.Command) :
    (∃ error, Cli.SettingsFail world config error ∧
        Cli.runCommand world config command = .error (.filter error)) ∨
      ∃ settings : Settings, settings.IsValid ∧ Cli.loadSettings world config = .ok settings ∧
        Cli.runCommand world config command = Cli.perform world settings command := by
  cases hload : Cli.loadSettings world config with
  | error error =>
    refine .inl ⟨error, Cli.loadSettings_eq_error_iff.1 hload, ?_⟩
    rw [Cli.runCommand, hload]
    rfl
  | ok settings =>
    refine .inr ⟨settings, Cli.loadSettings_isValid hload, rfl, ?_⟩
    rw [Cli.runCommand, hload]
    rfl

/-- **Loaded settings are in range, and the first fault is reported.** Settings are loaded from a JSON
text and two texts that may override their numbers.

* They are loaded exactly when the text gives valid settings, every override that is there denotes an
  integer of 64 bits between blanks, and the numbers after the overrides are valid as well. Each number
  is then that of its override, or else that of the JSON text, or else the default, and the numeric
  keywords are those of the JSON text, or else the default ones.
* They fail otherwise: with a text that gives no settings, with settings of the text that are out of
  range, with the override of the rows, with that of the first row, or with the rows or the first row
  after the overrides. The first of these is reported, and an override with all its blanks.
* With loaded settings the pages of every filter start at a row and have rows.
* Every command of a call is performed with valid settings, or its settings fail and it is not
  performed. -/
theorem loaded_in_range (source : String) (overrides : Overrides) :
    (∀ result, (ofJson source >>= fun given => given.withOverrides overrides) = .ok result ↔
      ∃ given, IsGiven source given ∧ given.IsValid ∧
        IsOverridden given.defaultRows result.defaultRows overrides.rows ∧
        IsOverridden given.defaultFirst result.defaultFirst overrides.first ∧
        result.numericKeywords = given.numericKeywords ∧ result.IsValid) ∧
    (∀ error, (ofJson source >>= fun given => given.withOverrides overrides) = .error error ↔
      LoadingFails source overrides error) ∧
    (∀ result, (ofJson source >>= fun given => given.withOverrides overrides) = .ok result →
      ∀ filter : Filter, 1 ≤ (filter.effectiveRows result).toInt ∧
        1 ≤ (filter.effectiveFirst result).toInt) ∧
    ∀ (world : Cli.World) (config : Option String) (command : Cli.Command),
      (∃ error, Cli.SettingsFail world config error ∧
        Cli.runCommand world config command = .error (.filter error)) ∨
      ∃ settings : Settings, settings.IsValid ∧ Cli.loadSettings world config = .ok settings ∧
        Cli.runCommand world config command = Cli.perform world settings command := by
  refine ⟨fun _ => load_eq_ok_iff, fun _ => load_eq_error_iff, ?_, runCommand_eq_perform_or⟩
  intro result hresult filter
  obtain ⟨given, -, -, -, -, -, hvalid⟩ := load_eq_ok_iff.1 hresult
  exact ⟨Filter.one_le_toInt_effectiveRows hvalid filter,
    Filter.one_le_toInt_effectiveFirst hvalid filter⟩

/-- An override with a sign, a zero in front and blanks, one of them not of ASCII. Then settings that
an override would repair, and two overrides that are no numbers. -/
theorem loaded_in_range_padded :
    let source := "\x7b\"default_first\":3,\"numeric_keywords\":[\"rows\"]\x7d"
    let overrides : Overrides := ⟨some "\u00a0+07 ", none⟩
    let result : Settings := ⟨7, 3, ["rows"]⟩
    (ofJson source >>= fun given => given.withOverrides overrides) = .ok result ∧
      (∀ filter : Filter, 1 ≤ (filter.effectiveRows result).toInt) ∧
      (∃ given, IsGiven source given ∧ given.IsValid ∧ given.numericKeywords = ["rows"]) ∧
      LoadingFails "\x7b\"default_rows\":0\x7d" ⟨some "5", some "x"⟩
        (.invalidSettings (.rowsNotPositive 0)) ∧
      LoadingFails "[1]" ⟨some "x ", some "y"⟩
        (.invalidSettings (.notANumber rowsVariable "x ")) := by
  intro source overrides result
  have hload : (ofJson source >>= fun given => given.withOverrides overrides) = .ok result := by
    decide +kernel +zetaReduce
  obtain ⟨hok, -, hpages, -⟩ := loaded_in_range source overrides
  obtain ⟨given, hgiven, hvalid, -, -, hkeywords, -⟩ := (hok result).1 hload
  refine ⟨hload, fun filter => (hpages result hload filter).1, ⟨given, hgiven, hvalid,
    hkeywords.symm⟩, ?_, ?_⟩
  · exact ((loaded_in_range _ _).2.1 _).1 (by decide +kernel)
  · exact ((loaded_in_range _ _).2.1 _).1 (by decide +kernel)

end Settings

end QueryFilter
