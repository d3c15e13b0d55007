import QueryFilter.Error
import QueryFilter.Json.Decode
import QueryFilter.Quoting
import QueryFilter.Term

set_option relaxedAutoImplicit false
set_option autoImplicit false

/-!
# Keyword records

A keyword record is a term in structured form, with its column, relation and value apart. It is
checked when it is made into a term, so that the term is one that a filter string could have
written.

## Main definitions

* `QueryFilter.Record` — keyword records.
* `QueryFilter.Record.toTerm` — the term that a record stands for.
* `QueryFilter.Record.toJson`, `QueryFilter.Record.read?` — records as JSON.
-/

namespace QueryFilter

/-- A term in structured form. -/
@[ext]
structure Record where
  column : String
  relation : String
  value : Json.Value
  deriving DecidableEq

namespace Record

/-- The words that connect terms. They stand without a relation. -/
def connectives : List String := ["and", "or", "not", "re", "regexp"]

/-- A record whose value is a text. -/
def ofText (column relation value : String) : Record :=
  ⟨column, relation, .string value⟩

/-- The text of the value, if it is a scalar: truth values are one and zero, and null is empty. -/
def valueText (record : Record) : Except Error String :=
  match record.value with
  | .string text => .ok text
  | .number number => .ok (String.ofList number.write)
  | .bool true => .ok "1"
  | .bool false => .ok "0"
  | .null => .ok ""
  | found => .error (.invalidValue record.column found)

/-- The relation of the record; an empty text stands for none. -/
def relation? (record : Record) : Except Error (Option Relation) :=
  if record.relation = "" then .ok none else (Relation.parse record.relation).map some

/-- The relation of a bare term: approximate connectives lose theirs. -/
def bareRelation (relation : Option Relation) (value : String) : Option Relation :=
  if relation = some .approx ∧ value ∈ connectives then none else relation

/-- The term that a record stands for. Its value is checked first, then its relation, then its
column. With a column and no relation, the term says equality. -/
def toTerm (record : Record) : Except Error Term := do
  let value := quoteValue (← record.valueText)
  let relation ← record.relation?
  if record.column = "" then
    .ok (.bare (bareRelation relation value) value)
  else if Keyword.isValid record.column then
    .ok (.keyed record.column (relation.getD .equal) value)
  else
    .error (.invalidKeyword record.column)

/-! ## JSON -/

/-- The record as JSON. -/
def toJson (record : Record) : Json.Value :=
  .object
    [("column", .string record.column), ("relation", .string record.relation),
      ("value", record.value)]

/-- Reads a record. A missing column or relation is empty, and a missing value is null. -/
def read? : Json.Reader Record
  | 0, _ => none
  | depth + 1, node => do
    let [column, relation, value] ← Json.fields? [["column"], ["relation"], ["value"]] node | none
    let column ← Json.orDefault? "" Json.string? depth column
    let relation ← Json.orDefault? "" Json.string? depth relation
    let value ← Json.orDefault? .null Json.value? depth value
    some ⟨column, relation, value⟩

end Record

end QueryFilter
