import QueryFilter.Error
import QueryFilter.Json.Decode
import QueryFilter.Keyword
import QueryFilter.Text.Blank

set_option relaxedAutoImplicit false
set_option autoImplicit false

/-!
# Settings

What holds where a filter says nothing: the size of a page and the row that the first page starts
with; and the keywords whose values are numbers. Settings come from a JSON file, and two variables
of the environment override the numbers in it.

## Main definitions

* `QueryFilter.Settings` — the settings.
* `QueryFilter.Settings.validate` — settings with which paging makes sense.
* `QueryFilter.Settings.ofJson` — settings from JSON text, validated.
* `QueryFilter.Settings.withOverrides` — settings after the overrides, validated again.

## Main results

* `QueryFilter.Settings.validate_eq_ok_iff` — what is validated is passed on as it is.
-/

namespace QueryFilter

/-- Defaults of paging, and the keywords whose values are numbers. -/
@[ext]
structure Settings where
  defaultRows : Int64
  defaultFirst : Int64
  numericKeywords : List String
  deriving DecidableEq

namespace Settings

/-- The settings that hold without a file. -/
def default : Settings :=
  ⟨10, 1, [Keyword.first, Keyword.rows, "min_qod", "apply_overrides", "autofp"]⟩

/-- Whether the values of a keyword are numbers. -/
def isNumeric (settings : Settings) (keyword : String) : Bool :=
  settings.numericKeywords.contains keyword

/-- A page has rows, and the first page does not start before the first row. -/
def IsValid (settings : Settings) : Prop :=
  1 ≤ settings.defaultRows.toInt ∧ 1 ≤ settings.defaultFirst.toInt

instance (settings : Settings) : Decidable settings.IsValid :=
  inferInstanceAs (Decidable (_ ∧ _))

/-- Passes valid settings on. The number of rows is looked at first. -/
def validate (settings : Settings) : Except Error Settings :=
  if settings.defaultRows.toInt ≤ 0 then
    .error (.invalidSettings (.rowsNotPositive settings.defaultRows))
  else if settings.defaultFirst.toInt < 1 then
    .error (.invalidSettings (.firstBelowOne settings.defaultFirst))
  else
    .ok settings

/-- Settings pass exactly when they are valid, and they pass unchanged. -/
theorem validate_eq_ok_iff {settings result : Settings} :
    settings.validate = .ok result ↔ settings.IsValid ∧ result = settings := by
  rw [validate, IsValid]
  split
  · exact ⟨nofun, fun h => absurd h.1.1 (by omega)⟩
  · split
    · exact ⟨nofun, fun h => absurd h.1.2 (by omega)⟩
    · rw [Except.ok.injEq, eq_comm]
      exact ⟨fun h => ⟨⟨by omega, by omega⟩, h⟩, And.right⟩

/-! ## JSON -/

/-- The names of the fields, in their order. -/
def fieldNames : List String := ["default_rows", "default_first", "numeric_keywords"]

/-- The settings as JSON. -/
def toJson (settings : Settings) : Json.Value :=
  .object
    [("default_rows", .ofInt64 settings.defaultRows),
      ("default_first", .ofInt64 settings.defaultFirst),
      ("numeric_keywords", .array (settings.numericKeywords.map .string))]

/-- Reads settings, where every missing field has its default. -/
def read? : Json.Reader Settings
  | 0, _ => none
  | depth + 1, node => do
    let [rows, first, keywords] ← Json.fields? (fieldNames.map fun name => [name]) node | none
    let rows ← Json.orDefault? default.defaultRows Json.int64? depth rows
    let first ← Json.orDefault? default.defaultFirst Json.int64? depth first
    let keywords ←
      Json.orDefault? default.numericKeywords (Json.list? Json.string?) depth keywords
    some ⟨rows, first, keywords⟩

/-- The fields, with the diagnosis of each. -/
def fields : List Json.Field :=
  [⟨"default_rows", [], Json.int64Cause?⟩, ⟨"default_first", [], Json.int64Cause?⟩,
    ⟨"numeric_keywords", [], Json.listCause? Json.stringCause?⟩]

/-- The first thing wrong with a document that settings cannot be read from. -/
def cause? : Json.Diagnosis :=
  Json.recordCause? "FilterSettings" fields

/-- What is wrong with a text that settings cannot be decoded from. -/
def decodeFault (source : String) : DecodeFault :=
  ⟨.settings, source, Json.decodeCause? cause? source⟩

/-- Settings from JSON text; they have to be valid. -/
def ofJson (source : String) : Except Error Settings :=
  match Json.decode? read? source with
  | none => .error (.malformed (decodeFault source))
  | some settings => settings.validate

/-- Settings from the contents of a file, if it can be opened; these have to be text. -/
def ofFile (contents : Option ByteArray) : Except Error Settings :=
  match fileText contents with
  | .error fault => .error (.unreadable fault)
  | .ok source => ofJson source

/-! ## Overrides -/

/-- The variable of the environment that overrides the size of a page. -/
def rowsVariable : String := "FILTER_DEFAULT_ROWS"

/-- The variable of the environment that overrides the first row. -/
def firstVariable : String := "FILTER_DEFAULT_FIRST"

/-- The texts that override the numbers of the settings. -/
structure Overrides where
  rows : Option String
  first : Option String
  deriving DecidableEq

/-- The number that a variable overrides: the one that its text denotes between blanks, or the
present one if the variable is not set. -/
def overridden (origin : String) (present : Int64) : Option String → Except Error Int64
  | none => .ok present
  | some text =>
    match Text.Decimal.toInt64? (Text.trim text.toList) with
    | some number => .ok number
    | none => .error (.invalidSettings (.notANumber origin text))

/-- The settings after the overrides; they have to be valid. -/
def withOverrides (settings : Settings) (overrides : Overrides) : Except Error Settings := do
  let rows ← overridden rowsVariable settings.defaultRows overrides.rows
  let first ← overridden firstVariable settings.defaultFirst overrides.first
  validate { settings with defaultRows := rows, defaultFirst := first }

end Settings

end QueryFilter
