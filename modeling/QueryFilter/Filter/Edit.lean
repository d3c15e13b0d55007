import QueryFilter.Filter.Paging

set_option relaxedAutoImplicit false
set_option autoImplicit false

/-!
# Edits

The changes that can be made to a filter, as data. A run of edits is a list of them, so that what
every run keeps can be stated of lists.

## Main definitions

* `QueryFilter.Edit` — the edits.
* `QueryFilter.Filter.apply` — a filter after an edit.
* `QueryFilter.Filter.applyAll` — a filter after a run of edits.
* `QueryFilter.Filter.editNotices` — what is reported when a filter is edited.
-/

namespace QueryFilter

/-- A change to a filter. -/
inductive Edit where
  | set (keyword : String) (value : KeywordValue) (relation : Relation)
  | delete (keyword : String)
  | setSortBy (field : String)
  | setSortOrder (order : SortOrder)
  | mergeKeywords (other : Filter)
  | next (settings : Settings)
  | previous (settings : Settings)
  | firstPage
  | allRows
  | simple
  deriving DecidableEq

/-- Sets a keyword to be equal to a value. -/
def Edit.setValue (keyword : String) (value : KeywordValue) : Edit :=
  .set keyword value .equal

namespace Filter

/-- The filter after an edit. -/
def apply (filter : Filter) : Edit → Filter
  | .set keyword value relation => filter.set keyword value relation
  | .delete keyword => filter.delete keyword
  | .setSortBy field => filter.setSortBy field
  | .setSortOrder order => filter.setSortOrder order
  | .mergeKeywords other => filter.mergeKeywords other
  | .next settings => filter.next settings
  | .previous settings => filter.previous settings
  | .firstPage => filter.firstPage
  | .allRows => filter.allRows
  | .simple => filter.simple

/-- The filter after a run of edits. -/
def applyAll (filter : Filter) (edits : List Edit) : Filter :=
  edits.foldl apply filter

/-- What is reported when a filter is edited. -/
def editNotices (filter : Filter) : Edit → List Notice
  | .set keyword _ _ => setNotices keyword
  | .next settings | .previous settings => filter.pagingNotices settings
  | _ => []

end Filter

end QueryFilter
