import QueryFilter.Filter.Keywords

set_option relaxedAutoImplicit false
set_option autoImplicit false

/-!
# Sorting

A filter sorts by one field in one of two orders. Both are said by a single term: its keyword gives
the order and its value the field. Where several such terms stand in a filter, the first one counts.

## Main definitions

* `QueryFilter.SortOrder` — the two orders.
* `QueryFilter.Filter.sortBy?`, `QueryFilter.Filter.sortOrder?` — how a filter sorts.
* `QueryFilter.Filter.setSortBy`, `QueryFilter.Filter.setSortOrder` — another field, another order.

## Main results

* `QueryFilter.Term.filter_writeSort` — terms that do not sort stay, in their order.
-/

namespace QueryFilter

/-- The order of a sorted result. -/
inductive SortOrder where
  | ascending
  | descending
  deriving DecidableEq, Repr

/-- The keyword that sorts in this order. -/
def SortOrder.keyword : SortOrder → String
  | ascending => Keyword.sort
  | descending => Keyword.sortReverse

/-- Both orders have a valid keyword. -/
theorem SortOrder.isValid_keyword (order : SortOrder) : Keyword.isValid order.keyword = true := by
  cases order <;> decide

namespace Term

/-- Whether a term says how to sort. -/
def isSort (term : Term) : Bool :=
  term.hasKeyword Keyword.sort || term.hasKeyword Keyword.sortReverse

/-- The order that a sort term says. -/
def sortOrder (term : Term) : SortOrder :=
  if term.hasKeyword Keyword.sortReverse then .descending else .ascending

/-- A term that is made for the keyword of an order says how to sort. -/
theorem isSort_keyed (order : SortOrder) (relation : Relation) (value : String) :
    (keyed order.keyword relation value).isSort = true := by
  cases order <;> rfl

/-- A term that is made for the keyword of an order says that order. -/
theorem sortOrder_keyed (order : SortOrder) (relation : Relation) (value : String) :
    (keyed order.keyword relation value).sortOrder = order := by
  cases order <;> rfl

/-- A term that says how to sort is not bare. -/
theorem isBare_eq_false_of_isSort {term : Term} (h : term.isSort = true) : term.isBare = false :=
  (Bool.or_eq_true_iff.1 h).elim isBare_eq_false_of_hasKeyword isBare_eq_false_of_hasKeyword

/-- Puts a sort term in the place of the first one and drops the others, or puts it at the end. -/
def writeSort (new : Term) : List Term → List Term
  | [] => [new]
  | term :: terms =>
    if term.isSort then new :: terms.filter (!·.isSort) else term :: writeSort new terms

/-- Writing a sort term leaves alone what a test selects among the other terms. -/
theorem filter_writeSort {new : Term} {test : Term → Bool} (hnew : test new = false)
    (hsort : ∀ term, term.isSort = true → test term = false) (terms : List Term) :
    (writeSort new terms).filter test = terms.filter test := by
  induction terms with
  | nil => simp [writeSort, hnew]
  | cons term terms ih =>
    rw [writeSort]
    split
    · next h =>
      rw [List.filter_cons_of_neg (by simp [hnew]),
        List.filter_cons_of_neg (by simp [hsort term h]), List.filter_filter]
      congr 1
      funext other
      cases hother : other.isSort with
      | true => simp [hsort other hother]
      | false => simp
    · rw [List.filter_cons, List.filter_cons, ih]

end Term

namespace Filter

/-- The term that says how to sort. -/
def sortTerm? (filter : Filter) : Option Term :=
  filter.terms.find? Term.isSort

/-- The field to sort by. -/
def sortBy? (filter : Filter) : Option String :=
  filter.sortTerm?.map Term.value

/-- The order to sort in. -/
def sortOrder? (filter : Filter) : Option SortOrder :=
  filter.sortTerm?.map Term.sortOrder

/-- Sorts by a field in an order. The field is quoted if it holds a separator. -/
def writeSort (filter : Filter) (order : SortOrder) (field : String) : Filter :=
  { filter with
    terms := Term.writeSort (.keyed order.keyword .equal (quoteValue field)) filter.terms }

/-- Sorts by a field, in the present order or else in the ascending one. -/
def setSortBy (filter : Filter) (field : String) : Filter :=
  filter.writeSort (filter.sortOrder?.getD .ascending) field

/-- Sorts by the present field in another order. Nothing happens to a filter that does not sort. -/
def setSortOrder (filter : Filter) (order : SortOrder) : Filter :=
  match filter.sortBy? with
  | none => filter
  | some field => filter.writeSort order field

end Filter

end QueryFilter
