import QueryFilter.Filter.Basic

set_option relaxedAutoImplicit false
set_option autoImplicit false

/-!
# Setting and deleting keywords

Changes to the terms with a given keyword. Each of them concerns the first such term; later ones
stay as they are, and so do bare terms. A keyword that is not there yet gets a term at the end.

## Main definitions

* `QueryFilter.Filter.set` — sets a keyword to a value.
* `QueryFilter.Filter.delete` — deletes the first term with a keyword.
* `QueryFilter.Filter.mergeKeywords` — takes over the keywords of another filter.

## Main results

* `QueryFilter.Term.filter_upsert` — terms of other kinds stay, in their order.
* `QueryFilter.Filter.getTerm?_set` — what is set is what is found.
-/

namespace QueryFilter

namespace Term

/-- Changes the first term with a keyword, or puts a new term at the end. -/
def upsert (keyword : String) (change : Term → Term) (new : Term) : List Term → List Term
  | [] => [new]
  | term :: terms =>
    if term.hasKeyword keyword then change term :: terms
    else term :: upsert keyword change new terms

/-- A change to the terms with a keyword leaves alone what a test selects among the others. -/
theorem filter_upsert {keyword : String} {change : Term → Term} {new : Term} {test : Term → Bool}
    (hnew : test new = false) (hold : ∀ term, term.hasKeyword keyword = true → test term = false)
    (hchange : ∀ term, term.hasKeyword keyword = true → test (change term) = false)
    (terms : List Term) : (upsert keyword change new terms).filter test = terms.filter test := by
  induction terms with
  | nil => simp [upsert, hnew]
  | cons term terms ih =>
    rw [upsert]
    split
    · next h => simp [hold term h, hchange term h]
    · rw [List.filter_cons, List.filter_cons, ih]

/-- After a change, the first term with the keyword is the changed one or the new one. -/
theorem find?_upsert {keyword : String} {change : Term → Term} {new : Term}
    (hnew : new.hasKeyword keyword = true)
    (hchange : ∀ term, term.hasKeyword keyword = true → (change term).hasKeyword keyword = true)
    (terms : List Term) :
    (upsert keyword change new terms).find? (·.hasKeyword keyword)
      = some (((terms.find? (·.hasKeyword keyword)).map change).getD new) := by
  induction terms with
  | nil => simp [upsert, hnew]
  | cons term terms ih =>
    rw [upsert]
    split
    · next h => simp [h, hchange term h]
    · next h => simp [h, ih]

/-- The first term with a keyword after its relation and value are replaced, or a new term for the
keyword if there was none: both are the same term. -/
theorem getD_find?_map_replace (keyword : String) (relation : Relation) (value : String)
    (terms : List Term) :
    ((terms.find? (·.hasKeyword keyword)).map (·.replace relation value)).getD
      (keyed keyword relation value) = keyed keyword relation value := by
  cases hfind : terms.find? (·.hasKeyword keyword) with
  | none => rfl
  | some term =>
    have hterm : term.hasKeyword keyword = true := by simpa using List.find?_some hfind
    rw [Option.map_some, Option.getD_some, replace_eq_keyed hterm]

end Term

namespace Filter

/-- Sets a keyword to a value: the first term with the keyword is replaced where it stands, or a new
term is put at the end. Nothing happens for an invalid keyword. -/
def set (filter : Filter) (keyword : String) (value : KeywordValue) (relation : Relation) :
    Filter :=
  if Keyword.isValid keyword then
    { filter with
      terms :=
        Term.upsert keyword (·.replace relation value.stored) (.keyed keyword relation value.stored)
          filter.terms }
  else
    filter

/-- After a valid keyword is set, its first term has the given relation and value. -/
theorem getTerm?_set {keyword : String} (h : Keyword.isValid keyword = true) (filter : Filter)
    (value : KeywordValue) (relation : Relation) :
    (filter.set keyword value relation).getTerm? keyword
      = some (.keyed keyword relation value.stored) := by
  have found := Term.hasKeyword_keyed (Keyword.ne_empty_of_isValid h) relation value.stored
  have kept (term : Term) (h : term.hasKeyword keyword = true) :
      (term.replace relation value.stored).hasKeyword keyword = true := h
  rw [set, if_pos h]
  refine (Term.find?_upsert found kept filter.terms).trans ?_
  rw [Term.getD_find?_map_replace]

/-- Sets a keyword to be equal to a value. -/
def setValue (filter : Filter) (keyword : String) (value : KeywordValue) : Filter :=
  filter.set keyword value .equal

/-- What is reported when a keyword is set. -/
def setNotices (keyword : String) : List Notice :=
  if Keyword.isValid keyword then [] else [.ignoredKeyword keyword]

/-- Deletes the first term with a keyword. -/
def delete (filter : Filter) (keyword : String) : Filter :=
  { filter with terms := filter.terms.eraseP fun term => term.hasKeyword keyword }

/-- Takes over one term: the first term with its keyword gets its relation, or equality if it has
none, and its value; without such a term it is put at the end. A bare term is passed over. -/
def mergeTerm (terms : List Term) (other : Term) : List Term :=
  match other.keyword with
  | none => terms
  | some keyword =>
    Term.upsert keyword (·.replace (other.relation.getD .equal) other.value) other terms

/-- Takes over the terms with a keyword of another filter, one after the other. -/
def mergeKeywords (filter other : Filter) : Filter :=
  { filter with terms := other.terms.foldl mergeTerm filter.terms }

end Filter

end QueryFilter
