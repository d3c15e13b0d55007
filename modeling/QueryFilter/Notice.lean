set_option relaxedAutoImplicit false
set_option autoImplicit false

/-!
# Notices

What the operations on filters report while they run. A notice never changes a result.

## Main definitions

* `QueryFilter.Notice` — the notices.
* `QueryFilter.Notice.level`, `QueryFilter.Notice.message` — how one is reported.
-/

namespace QueryFilter

/-- How much a notice matters. -/
inductive Notice.Level where
  | debug
  | warning
  deriving DecidableEq, Repr

/-- What an operation reports. -/
inductive Notice where
  /-- A filter string was read. -/
  | parsed (text : String) (terms : Nat)
  /-- Keyword records were made into terms. -/
  | converted (records : Nat)
  /-- A value for an invalid keyword was dropped. -/
  | ignoredKeyword (keyword : String)
  /-- The value of a numeric keyword is not a number. -/
  | notNumeric (keyword : String) (value : String)
  deriving DecidableEq, Repr

namespace Notice

/-- Faults in the data are warnings. -/
def level : Notice → Level
  | parsed _ _ | converted _ => .debug
  | ignoredKeyword _ | notNumeric _ _ => .warning

/-- The wording of a notice. -/
def message : Notice → String
  | parsed text terms => "Parsed filter '" ++ text ++ "' into " ++ terms.repr ++ " terms"
  | converted records => "Converted " ++ records.repr ++ " keyword records into filter terms"
  | ignoredKeyword keyword => "Ignoring set on invalid keyword '" ++ keyword ++ "'"
  | notNumeric keyword value =>
    "Non-numeric value '" ++ value ++ "' for numeric keyword '" ++ keyword ++ "'"

end Notice

end QueryFilter
