set_option relaxedAutoImplicit false
set_option autoImplicit false

/-!
# Keywords

A keyword names what a term of a filter is about. Keywords are made of ASCII letters, digits, `_`
and `-`, and their case matters. Four of them do not select anything: they say which page of the
result is wanted and how the result is sorted.

## Main definitions

* `QueryFilter.Keyword.isChar` — the characters of keywords.
* `QueryFilter.Keyword.isValid` — the texts that can stand as a keyword.
* `QueryFilter.Keyword.isPaging` — the keywords of paging and sorting.
-/

namespace QueryFilter.Keyword

/-- Keywords consist of ASCII letters and digits, `_` and `-`. -/
def isChar (c : Char) : Bool :=
  c.isAlphanum || c == '_' || c == '-'

/-- A valid keyword is not empty and consists of keyword characters. -/
def isValid (keyword : String) : Bool :=
  keyword != "" && keyword.toList.all isChar

/-- A valid keyword is not empty. -/
theorem ne_empty_of_isValid {keyword : String} (h : isValid keyword = true) : keyword ≠ "" := by
  simp only [isValid, Bool.and_eq_true, bne_iff_ne] at h
  exact h.1

/-- The keyword of the first row of the page. -/
def first : String := "first"

/-- The keyword of the number of rows on a page. -/
def rows : String := "rows"

/-- The keyword of the field to sort by, in ascending order. -/
def sort : String := "sort"

/-- The keyword of the field to sort by, in descending order. -/
def sortReverse : String := "sort-reverse"

/-- The keywords that control paging and sorting and do not select. -/
def paging : List String := [first, rows, sort, sortReverse]

/-- Whether a keyword controls paging or sorting. -/
def isPaging (keyword : String) : Bool :=
  paging.contains keyword

/-- The keywords of paging and sorting are valid and distinct. -/
example : paging.all isValid = true ∧ paging.Nodup := by decide

end QueryFilter.Keyword
