import QueryFilter.Filter.Sorting
import QueryFilter.Saturating

set_option relaxedAutoImplicit false
set_option autoImplicit false

/-!
# Paging

The page that a filter asks for starts at the row `first` and has as many rows as `rows` says. Steps
from page to page change `first`. The arithmetic is that of integers of 64 bits which stop at the
ends of their range.

## Main definitions

* `QueryFilter.Filter.effectiveFirst`, `QueryFilter.Filter.effectiveRows` — the page that a filter
  asks for, with the defaults of the settings.
* `QueryFilter.Filter.next`, `QueryFilter.Filter.previous` — the neighbouring pages.
* `QueryFilter.Filter.firstPage`, `QueryFilter.Filter.allRows` — the first page, and everything on
  one.
* `QueryFilter.Filter.simple` — a filter without its terms of paging and sorting.
-/

namespace QueryFilter

namespace Filter

/-- The number of rows that asks for all of them. -/
def everyRow : Int64 := -1

/-- The number under a keyword, if there is one and it is at least one. -/
def positiveNumber? (filter : Filter) (settings : Settings) (keyword : String) : Option Int64 :=
  ((filter.getWith? settings keyword).bind KeywordValue.number?).filter fun n => 1 ≤ n.toInt

/-- The first row of the page. -/
def effectiveFirst (filter : Filter) (settings : Settings) : Int64 :=
  (filter.positiveNumber? settings Keyword.first).getD settings.defaultFirst

/-- The number of rows on the page. -/
def effectiveRows (filter : Filter) (settings : Settings) : Int64 :=
  (filter.positiveNumber? settings Keyword.rows).getD settings.defaultRows

/-- What is reported when the page is looked up. -/
def pagingNotices (filter : Filter) (settings : Settings) : List Notice :=
  filter.lookupNotices settings Keyword.first ++ filter.lookupNotices settings Keyword.rows

/-- The next page. -/
def next (filter : Filter) (settings : Settings) : Filter :=
  filter.setValue Keyword.first
    (.number (Saturating.add (filter.effectiveFirst settings) (filter.effectiveRows settings)))

/-- The page before, which starts at the first row at the earliest. -/
def previous (filter : Filter) (settings : Settings) : Filter :=
  let start := Saturating.sub (filter.effectiveFirst settings) (filter.effectiveRows settings)
  filter.setValue Keyword.first (.number (if start.toInt < 1 then 1 else start))

/-- The first page. -/
def firstPage (filter : Filter) : Filter :=
  filter.setValue Keyword.first (.number 1)

/-- All rows on the first page. -/
def allRows (filter : Filter) : Filter :=
  filter.firstPage.setValue Keyword.rows (.number everyRow)

/-- The filter without its terms of paging and sorting: a term stays unless it has a keyword and that
keyword is one of the four. -/
def simple (filter : Filter) : Filter :=
  { filter with
    terms := filter.terms.filter fun term =>
      match term.keyword with
      | some keyword => !Keyword.paging.contains keyword
      | none => true }

/-- What is left are the terms whose text is the text of the criteria. -/
theorem simple_eq (filter : Filter) : filter.simple = { filter with terms := filter.criteria } := by
  rw [simple, criteria]
  congr 2
  funext term
  rw [Term.isPaging]
  cases term.keyword with
  | none => rfl
  | some keyword => rfl

end Filter

end QueryFilter
