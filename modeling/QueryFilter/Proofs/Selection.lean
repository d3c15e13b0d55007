import QueryFilter.Proofs.Survival

set_option relaxedAutoImplicit false
set_option autoImplicit false

/-!
# What is selected

The terms of paging and sorting say which part of the result is shown and in which order, and all others
say what is in the result. Edits of paging and sorting are about terms of the former kind only, so that the
terms that select stay as they are, in their order, wherever those of paging and sorting are put in,
written over or taken out between them.

## Main definitions

* `QueryFilter.Edit.isArranging` — the edits of paging and sorting.

## Main results

* `QueryFilter.Filter.criteria_apply`, `QueryFilter.Filter.criteria_applyAll` — the terms that select,
  after an edit and after a run of edits.
* `QueryFilter.Filter.selection_applyAll` — the same for the text of what is selected.
-/

namespace QueryFilter

namespace Term

/-- A term of paging or sorting has one of the four keywords. -/
theorem isPaging_eq_any (term : Term) : term.isPaging = Keyword.paging.any term.hasKeyword := by
  cases hkeyword : term.keyword with
  | none => simp [isPaging, hasKeyword, hkeyword]
  | some keyword =>
    have hsame : term.hasKeyword = fun other => keyword == other := by
      funext other
      rw [hasKeyword, hkeyword, Option.some_beq_some]
    rw [isPaging, hkeyword, Option.any_some, Keyword.isPaging, List.contains_eq_any_beq, hsame]

/-- A term with a keyword of paging or sorting is a term of paging or sorting. -/
theorem isPaging_of_hasKeyword {term : Term} {keyword : String}
    (hterm : term.hasKeyword keyword = true) (hkeyword : Keyword.isPaging keyword = true) :
    term.isPaging = true := by
  rw [isPaging, hasKeyword_iff.1 hterm]
  exact hkeyword

/-- A term that says how to sort is a term of paging or sorting. -/
theorem isPaging_of_isSort {term : Term} (h : term.isSort = true) : term.isPaging = true := by
  rcases Bool.or_eq_true_iff.1 h with hterm | hterm
  · exact isPaging_of_hasKeyword hterm (by decide)
  · exact isPaging_of_hasKeyword hterm (by decide)

end Term

namespace Edit

/-- Whether an edit is one of paging and sorting: a step from page to page, a change of how to sort, or
one that sets, deletes or leaves out keywords of paging and sorting. -/
def isArranging : Edit → Bool
  | .set keyword _ _ | .delete keyword => Keyword.isPaging keyword
  | .mergeKeywords _ => false
  | .setSortBy _ | .setSortOrder _ | .next _ | .previous _ | .firstPage | .allRows | .simple => true

/-- An edit of paging and sorting is about terms of paging and sorting. -/
theorem isPaging_of_concerns {edit : Edit} (h : edit.isArranging = true) {term : Term}
    (hterm : edit.concerns term = true) : term.isPaging = true := by
  have hfirst (hterm : term.hasKeyword Keyword.first = true) : term.isPaging = true :=
    Term.isPaging_of_hasKeyword hterm (by decide)
  cases edit with
  | set keyword value relation => exact Term.isPaging_of_hasKeyword hterm h
  | delete keyword => exact Term.isPaging_of_hasKeyword hterm h
  | setSortBy field => exact Term.isPaging_of_isSort hterm
  | setSortOrder order => exact Term.isPaging_of_isSort hterm
  | mergeKeywords other => contradiction
  | next settings => exact hfirst hterm
  | previous settings => exact hfirst hterm
  | firstPage => exact hfirst hterm
  | allRows =>
    rcases Bool.or_eq_true_iff.1 hterm with hterm | hterm
    · exact hfirst hterm
    · exact Term.isPaging_of_hasKeyword hterm (by decide)
  | simple => exact hterm

end Edit

namespace Filter

/-- An edit of paging and sorting leaves alone the terms that select. -/
theorem criteria_apply {edit : Edit} (h : edit.isArranging = true) (filter : Filter) :
    (filter.apply edit).criteria = filter.criteria := by
  refine filter_terms_apply ?_ filter
  intro term hterm
  rw [Edit.isPaging_of_concerns h hterm, Bool.not_true]

/-- A run of edits of paging and sorting leaves alone the terms that select. -/
theorem criteria_applyAll {edits : List Edit} (h : ∀ edit ∈ edits, edit.isArranging = true)
    (filter : Filter) : (filter.applyAll edits).criteria = filter.criteria := by
  induction edits generalizing filter with
  | nil => rfl
  | cons edit edits ih =>
    rw [List.forall_mem_cons] at h
    exact (ih h.2 (filter.apply edit)).trans (criteria_apply h.1 filter)

/-- **Paging and sorting never change what is selected.** A filter without its terms of paging and sorting
holds all other terms in their order and none with one of the four keywords, and its text is that of what
the filter selects. After any run of edits of paging and sorting, the same terms and the same text are
left. -/
theorem selection_applyAll (filter : Filter) :
    filter.simple
        = { filter with terms := filter.terms.filter fun term => !Keyword.paging.any term.hasKeyword } ∧
    (∀ term ∈ filter.simple.terms, ∀ keyword ∈ Keyword.paging, term.keyword ≠ some keyword) ∧
    filter.toCriteriaString = filter.simple.toFilterString ∧
    ∀ edits : List Edit, (∀ edit ∈ edits, edit.isArranging = true) →
      (filter.applyAll edits).simple.terms = filter.simple.terms ∧
      (filter.applyAll edits).toCriteriaString = filter.toCriteriaString := by
  have hcriteria : filter.criteria
      = filter.terms.filter fun term => !Keyword.paging.any term.hasKeyword := by
    apply List.filter_congr
    intro term _
    rw [Term.isPaging_eq_any]
  have hterms (other : Filter) : other.simple.terms = other.criteria :=
    congrArg Filter.terms other.simple_eq
  refine ⟨?_, ?_, ?_, ?_⟩
  · rw [simple_eq, hcriteria]
  · intro term hterm keyword hkeyword hsame
    rw [hterms, hcriteria, List.mem_filter, Bool.not_eq_true', List.any_eq_false] at hterm
    exact hterm.2 keyword hkeyword (Term.hasKeyword_iff.2 hsame)
  · rw [toFilterString, hterms]
    rfl
  · intro edits h
    have hrun := criteria_applyAll h filter
    rw [hterms, hterms]
    exact ⟨hrun, congrArg joinTerms hrun⟩

/-- A filter with terms of all four keywords between those that select. -/
theorem selection_applyAll_four :
    let filter := ofString "x first=3 name=y sort=due rows=5 or sort-reverse=z"
    let edits : List Edit :=
      [.next .default, .setSortBy "a b", .set "rows" (.number 7) .less, .delete "first",
        .setSortOrder .descending]
    (∀ edit ∈ edits, edit.isArranging = true) ∧
      (filter.applyAll edits).terms
        = [.bare none "x", .keyed "name" .equal "y", .keyed "sort-reverse" .equal "\"a b\"",
          .keyed "rows" .less "7", .bare none "or"] ∧
      filter.simple.terms = [.bare none "x", .keyed "name" .equal "y", .bare none "or"] ∧
      filter.toCriteriaString = "x name=y or" ∧
      (filter.applyAll edits).simple.terms = filter.simple.terms ∧
      (filter.applyAll edits).toCriteriaString = filter.toCriteriaString := by
  intro filter edits
  have harranging : ∀ edit ∈ edits, edit.isArranging = true := by decide +kernel +zetaReduce
  obtain ⟨-, -, -, hrun⟩ := selection_applyAll filter
  refine ⟨harranging, ?_, ?_, ?_, hrun edits harranging⟩
  · decide +kernel +zetaReduce
  · decide +kernel +zetaReduce
  · decide +kernel +zetaReduce

end Filter

end QueryFilter
