import QueryFilter.Filter.Basic

set_option relaxedAutoImplicit false
set_option autoImplicit false

/-!
# Equal filters

Two filters are equal when they select the same: the order of terms with a keyword does not matter,
that of bare terms does. The identity of a saved filter is left out of account.

## Main definitions

* `QueryFilter.Filter.bareTerms`, `QueryFilter.Filter.keywordTerms` — the two kinds of terms.
* `QueryFilter.Filter.equals` — whether two filters are equal.
-/

namespace QueryFilter

namespace Filter

/-- The terms without a keyword, in order. -/
def bareTerms (filter : Filter) : List Term :=
  filter.terms.filter Term.isBare

/-- The terms with a keyword, in order. -/
def keywordTerms (filter : Filter) : List Term :=
  filter.terms.filter (!·.isBare)

/-- The terms with a keyword, in the order of terms. -/
def sortedKeywordTerms (filter : Filter) : List Term :=
  filter.keywordTerms.mergeSort fun a b => (a.compare b).isLE

/-- Whether two filters have the same bare terms in the same order and the same terms with a keyword
in any order. -/
def equals (filter other : Filter) : Bool :=
  filter.terms.length == other.terms.length && filter.bareTerms == other.bareTerms
    && filter.sortedKeywordTerms == other.sortedKeywordTerms

end Filter

end QueryFilter
