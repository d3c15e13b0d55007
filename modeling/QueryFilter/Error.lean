import QueryFilter.Fault
import QueryFilter.Relation

set_option relaxedAutoImplicit false
set_option autoImplicit false

/-!
# Errors

What can be wrong with the data that filters and settings are made from. An error says what was
found; its wording is a function of it.

## Main definitions

* `QueryFilter.SettingsFault` — what can be wrong with settings that could be read.
* `QueryFilter.Error` — all errors.
* `QueryFilter.Error.message` — the wording.
* `QueryFilter.Relation.parse` — the relation that a text stands for, or the error that there is
  none.

## Main results

* `QueryFilter.Relation.parse_eq_error_iff` — the texts that stand for no relation.
-/

namespace QueryFilter

/-- What is wrong with settings that could be read. -/
inductive SettingsFault where
  /-- A page would have no rows. -/
  | rowsNotPositive (rows : Int64)
  /-- The first page would start before the first row. -/
  | firstBelowOne (first : Int64)
  /-- A variable of the environment does not hold an integer of 64 bits. -/
  | notANumber (origin : String) (text : String)
  deriving DecidableEq

/-- What is wrong with the settings, in words. -/
def SettingsFault.message : SettingsFault → String
  | rowsNotPositive rows => "default_rows must be positive, got " ++ Text.Decimal.ofInt64 rows
  | firstBelowOne first => "default_first must be at least 1, got " ++ Text.Decimal.ofInt64 first
  | notANumber origin text => origin ++ " is not a number: '" ++ text ++ "'"

/-- The errors of this library. -/
inductive Error where
  /-- A text that stands for no relation. -/
  | unknownRelation (text : String)
  /-- A record whose value is an array or an object. -/
  | invalidValue (column : String) (found : Json.Value)
  /-- A record whose column cannot be a keyword. -/
  | invalidKeyword (column : String)
  /-- Settings that make no sense. -/
  | invalidSettings (fault : SettingsFault)
  /-- A text that is not JSON, or JSON of another form than is asked for. -/
  | malformed (fault : DecodeFault)
  /-- A file of settings that cannot be opened or does not hold text. -/
  | unreadable (fault : FileFault)
  deriving DecidableEq

/-- The wording of an error, with what others supply of it. -/
def Error.message (wording : Wording) : Error → String
  | unknownRelation text => "Unknown filter relation: '" ++ text ++ "'"
  | invalidValue column found =>
    "Invalid value for filter keyword '" ++ column ++ "': " ++ found.compact
  | invalidKeyword column => "Invalid filter keyword: '" ++ column ++ "'"
  | invalidSettings fault => "Invalid filter settings: " ++ fault.message
  | malformed fault => "Failed to decode filter record: " ++ fault.text wording
  | unreadable fault => "Failed to read filter settings: " ++ fault.text wording

/-- The relation that a text stands for; any other text is an error. -/
def Relation.parse (text : String) : Except Error Relation :=
  match ofString? text with
  | some relation => .ok relation
  | none => .error (.unknownRelation text)

/-- The texts that stand for no relation are those other than the texts of the relations. -/
theorem Relation.parse_eq_error_iff {text : String} {error : Error} :
    Relation.parse text = .error error
      ↔ text ∉ Relation.all.map Relation.render ∧ error = .unknownRelation text := by
  have hnone : ofString? text = none ↔ text ∉ all.map render := by
    rw [Option.eq_none_iff_forall_ne_some]
    constructor
    · intro h hmem
      obtain ⟨relation, -, htext⟩ := List.mem_map.1 hmem
      exact h relation (ofString?_eq_some_iff.2 htext.symm)
    · intro h relation hrelation
      exact h (List.mem_map.2 ⟨relation, mem_all relation, (ofString?_eq_some_iff.1 hrelation).symm⟩)
  rw [Relation.parse, ← hnone]
  cases ofString? text with
  | none => simp [eq_comm]
  | some relation => simp

/-- The texts of the relations are five markers of one character. -/
example : Relation.all.map Relation.render = ["~", "=", ">", "<", ":"] := by decide

end QueryFilter
