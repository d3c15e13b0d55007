import QueryFilter.Json.Decode
import QueryFilter.Quoting

set_option relaxedAutoImplicit false
set_option autoImplicit false

/-!
# Values of keywords

What a keyword is set to and what is found under it: a number or a text. In a term both are text.

## Main definitions

* `QueryFilter.KeywordValue` — numbers and texts.
* `QueryFilter.KeywordValue.stored` — the text that a term holds for a value.
* `QueryFilter.KeywordValue.toJson`, `QueryFilter.KeywordValue.read?` — values as JSON.
-/

namespace QueryFilter

/-- The value of a keyword. -/
inductive KeywordValue where
  | number (value : Int64)
  | text (value : String)
  deriving DecidableEq

namespace KeywordValue

/-- The number, if the value is one. -/
def number? : KeywordValue → Option Int64
  | number value => some value
  | text _ => none

/-- The text, if the value is one. -/
def text? : KeywordValue → Option String
  | number _ => none
  | text value => some value

/-- The value as it is shown: a number in decimal, a text as it is. -/
def display : KeywordValue → String
  | number value => Text.Decimal.ofInt64 value
  | text value => value

/-- The text that a term holds for the value; a text with separators is quoted. -/
def stored : KeywordValue → String
  | number value => Text.Decimal.ofInt64 value
  | text value => quoteValue value

/-- The value as JSON: a number or a string. -/
def toJson : KeywordValue → Json.Value
  | number value => .ofInt64 value
  | text value => .string value

/-- Reads an integer of 64 bits or else a string. -/
def read? : Json.Reader KeywordValue := fun depth node =>
  match Json.int64? depth node with
  | some value => some (.number value)
  | none => (Json.string? depth node).map .text

end KeywordValue

end QueryFilter
