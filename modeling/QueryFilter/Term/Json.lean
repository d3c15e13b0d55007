import QueryFilter.Json.Decode
import QueryFilter.Term

set_option relaxedAutoImplicit false
set_option autoImplicit false

/-!
# Terms as JSON

Relations go by their names in JSON, and a term is an object with its three parts, where null stands
for a part that it does not have.

## Main definitions

* `QueryFilter.Relation.toJson`, `QueryFilter.Relation.read?` — relations as JSON.
* `QueryFilter.Term.toJson` — terms as JSON.
-/

namespace QueryFilter

namespace Relation

/-- A relation as JSON: its name. -/
def toJson (relation : Relation) : Json.Value :=
  .string relation.name

/-- Reads the name of a relation, or an object whose only member has that name and the value null.
-/
def read? : Json.Reader Relation
  | _, .string quoted => quoted.text?.bind ofName?
  | _ + 1, .object [(name, .null)] => name.text?.bind ofName?
  | _, _ => none

end Relation

namespace Term

/-- The parts of a term as members of an object. -/
def members (term : Term) : List (String × Json.Value) :=
  [("keyword", .ofString? term.keyword), ("relation", .ofString? (term.relation.map Relation.name)),
    ("value", .string term.value)]

/-- A term as JSON. -/
def toJson (term : Term) : Json.Value :=
  .object term.members

end Term

end QueryFilter
