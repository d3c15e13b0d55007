import QueryFilter.Json.Node
import QueryFilter.Json.Value

set_option relaxedAutoImplicit false
set_option autoImplicit false

/-!
# Reading data out of JSON documents

A reader takes a number of levels and a document, and reads the document if it is of the right form
and arrays and objects are nested in it at most that deep. What a reader passes over is only bound
to be well formed: it may be nested deeper, and its strings and numbers are not looked at.

A record with named fields is read from an object, or from an array that lists its fields in order.
Members of an object that are no fields are passed over, and a field that is given twice is an
error.

## Main definitions

* `QueryFilter.Json.Reader` — readers.
* `QueryFilter.Json.value?` — the reader of any value.
* `QueryFilter.Json.fields?` — the documents that a record gives for its fields.
* `QueryFilter.Json.decode?` — a reader applied to a text.
-/

namespace QueryFilter.Json

/-- Reads a document in which arrays and objects are nested at most to the given depth. -/
abbrev Reader (α : Type) := Nat → Node → Option α

/-- The greatest depth of arrays and objects inside each other. -/
def maxDepth : Nat := 127

/-- Reads the document that a text writes. -/
def decode? {α : Type} (read : Reader α) (text : String) : Option α :=
  (Node.ofText? text).bind (read maxDepth)

/-! ## Values -/

mutual

/-- Reads any value. -/
def value? : Reader Value
  | _, .null => some .null
  | _, .bool value => some (.bool value)
  | _, .number literal => (Number.ofLiteral? literal).map .number
  | _, .string quoted => quoted.text?.map .string
  | 0, .array _ => none
  | depth + 1, .array items => (items? depth items).map .array
  | 0, .object _ => none
  | depth + 1, .object members => (members? depth members).map .ofMembers

/-- Reads a list of values. -/
def items? (depth : Nat) : List Node → Option (List Value)
  | [] => some []
  | item :: items => do
    let value ← value? depth item
    let values ← items? depth items
    some (value :: values)

/-- Reads a list of members. -/
def members? (depth : Nat) : List (Quoted × Node) → Option (List (String × Value))
  | [] => some []
  | (name, member) :: members => do
    let name ← name.text?
    let value ← value? depth member
    let values ← members? depth members
    some ((name, value) :: values)

end

/-- Reads a string. -/
def string? : Reader String
  | _, .string quoted => quoted.text?
  | _, _ => none

/-- Reads an integer of 64 bits, which is written with digits alone. -/
def int64? : Reader Int64
  | _, .number literal =>
    match Number.ofLiteral? literal with
    | some (.integer n) => Text.Decimal.ofInt64? n
    | _ => none
  | _, _ => none

/-- Reads an array of things. -/
def list? {α : Type} (read : Reader α) : Reader (List α)
  | depth + 1, .array items => items.mapM (read depth)
  | _, _ => none

/-! ## Records -/

/-- The only member whose name is one of those of a field; none if there is no such member, and an
error if there are several. -/
def field? (members : List (String × Node)) (names : List String) : Option (Option Node) :=
  match members.filter fun member => names.contains member.1 with
  | [] => some none
  | [member] => some (some member.2)
  | _ => none

/-- The documents that a record gives for its fields, each of which goes by one or more names. An
array gives at most as many as there are fields, and the last fields may be missing. -/
def fields? (fields : List (List String)) : Node → Option (List (Option Node))
  | .array items =>
    if items.length ≤ fields.length then
      some (items.map some ++ List.replicate (fields.length - items.length) none)
    else
      none
  | .object members => do
    let named ← members.mapM fun (name, member) => name.text?.map fun name => (name, member)
    fields.mapM (field? named)
  | _ => none

/-- Reads a field that takes a default where it is missing. -/
def orDefault? {α : Type} (default : α) (read : Reader α) (depth : Nat) : Option Node → Option α
  | none => some default
  | some node => read depth node

/-- Reads a field that may be missing; null counts as missing. -/
def optional? {α : Type} (read : Reader α) (depth : Nat) : Option Node → Option (Option α)
  | none | some .null => some none
  | some node => (read depth node).map some

end QueryFilter.Json
