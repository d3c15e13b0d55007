import QueryFilter.Filter.Basic
import QueryFilter.Term.Json

set_option relaxedAutoImplicit false
set_option autoImplicit false

/-!
# Listings of terms

The terms of a filter as a table for people and as JSON for programs.

## Main definitions

* `QueryFilter.Cli.table` — the terms as a table.
* `QueryFilter.Cli.listing` — the terms as JSON, with their places.
-/

namespace QueryFilter.Cli

/-- A text filled up with spaces to a number of characters. -/
def padTo (width : Nat) (text : String) : String :=
  String.ofList (text.toList ++ List.replicate (width - text.toList.length) ' ')

/-- A line of the table. -/
def row (index keyword relation value : String) : String :=
  padTo 6 index ++ " " ++ padTo 16 keyword ++ " " ++ padTo 9 relation ++ " " ++ value ++ "\n"

/-- The line of a term; a dash stands for a part that it does not have. -/
def termRow (term : Term) (index : Nat) : String :=
  row index.repr (term.keyword.getD "-") (term.relation.elim "-" Relation.render) term.value

/-- The terms of a filter as a table with a heading. -/
def table (filter : Filter) : String :=
  row "#" "Keyword" "Relation" "Value"
    ++ String.join (filter.terms.mapIdx fun i term => termRow term i)

/-- The terms of a filter as JSON, each with its place. -/
def listing (filter : Filter) : Json.Value :=
  .array (filter.terms.mapIdx fun i term =>
    .object (("index", .number (.integer i)) :: term.members))

end QueryFilter.Cli
