import QueryFilter.Proofs.Commuting
import QueryFilter.Proofs.Paging

set_option relaxedAutoImplicit false
set_option autoImplicit false

/-!
# Page steps and other edits

A step from page to page reads and writes the terms of `first` and `rows` and no others, so it does not
matter whether another keyword is set or deleted before the step or after it. Only new terms at the end
may come in another order. To follow such a difference through further edits it is not enough that one
filter reorders the other, because an edit changes the first term with its keyword: the terms of each
keyword by themselves have to stand in the same order.

## Main definitions

* `QueryFilter.Filter.termsFor` — the terms with a keyword, in their order.
* `QueryFilter.Filter.SameByKeyword` — filters with the same terms for every keyword.
* `QueryFilter.Edit.pageSteps` — the steps from page to page.

## Main results

* `QueryFilter.Filter.SameByKeyword.reorders` — filters that are the same by keyword reorder each other.
* `QueryFilter.Filter.SameByKeyword.set`, `QueryFilter.Filter.sameByKeyword_set_comm` — they stay the same
  when a keyword is set, and two keywords can be set in either order.
* `QueryFilter.Filter.sameByKeyword_pageStep_set`, `QueryFilter.Filter.pageStep_delete` — one step, and
  another keyword set or deleted before or after it.
* `QueryFilter.Filter.pageSteps_commute` — all of these steps together.
-/

namespace QueryFilter

namespace Filter

variable {keyword name : String}

/-! ## The terms of one keyword -/

/-- The terms with a keyword, in their order. -/
def termsFor (filter : Filter) (keyword : String) : List Term :=
  filter.terms.filter fun term => term.hasKeyword keyword

/-- Setting a keyword changes the first of its terms, or adds one to them. -/
theorem termsFor_set_self (hk : Keyword.isValid keyword = true) (filter : Filter)
    (value : KeywordValue) (relation : Relation) :
    (filter.set keyword value relation).termsFor keyword
      = Term.upsert keyword (·.replace relation value.stored) (.keyed keyword relation value.stored)
        (filter.termsFor keyword) := by
  have hnew := Term.hasKeyword_keyed (Keyword.ne_empty_of_isValid hk) relation value.stored
  rw [set, if_pos hk, termsFor, termsFor]
  induction filter.terms with
  | nil => simp [Term.upsert, hnew]
  | cons term terms ih =>
    cases hterm : term.hasKeyword keyword with
    | true => simp [Term.upsert, hterm]
    | false => simp [Term.upsert, hterm, ih]

/-- Setting a keyword leaves alone the terms of another one. -/
theorem termsFor_set_of_ne (hne : keyword ≠ name) (filter : Filter) (value : KeywordValue)
    (relation : Relation) :
    (filter.set keyword value relation).termsFor name = filter.termsFor name := by
  have hother : ∀ term, (Edit.set keyword value relation).concerns term = true →
      term.hasKeyword name = false := by
    intro term hterm
    exact Term.hasKeyword_eq_false_of_ne hterm hne
  exact filter_terms_apply hother filter

/-! ## The same terms for every keyword -/

/-- Two filters hold the same bare terms and, for every keyword, the same terms, each in the same order.
How the terms of one keyword stand among the others is left open. -/
structure SameByKeyword (filter other : Filter) : Prop where
  bareTerms_eq : filter.bareTerms = other.bareTerms
  termsFor_eq : ∀ keyword, filter.termsFor keyword = other.termsFor keyword

namespace SameByKeyword

variable {filter other third : Filter}

theorem trans (h : filter.SameByKeyword other) (k : other.SameByKeyword third) :
    filter.SameByKeyword third where
  bareTerms_eq := h.bareTerms_eq.trans k.bareTerms_eq
  termsFor_eq keyword := (h.termsFor_eq keyword).trans (k.termsFor_eq keyword)

/-- Filters that are the same by keyword reorder each other: a term occurs among all terms as often as
among the bare ones, if it is bare, and else as among those that have its keyword. -/
theorem reorders (h : filter.SameByKeyword other) : filter.Reorders other := by
  have hcount {test : Term → Bool} {term : Term} (hterm : test term = true)
      (hsame : filter.terms.filter test = other.terms.filter test) :
      filter.terms.count term = other.terms.count term := by
    rw [← List.count_filter hterm, hsame, List.count_filter hterm]
  refine ⟨List.perm_iff_count.2 fun term => ?_, h.bareTerms_eq⟩
  cases hkeyword : term.keyword with
  | none =>
    have hbare : term.isBare = true := by rw [Term.isBare, hkeyword, Option.isNone_none]
    exact hcount hbare h.bareTerms_eq
  | some keyword =>
    have hhas : term.hasKeyword keyword = true := Term.hasKeyword_iff.2 hkeyword
    exact hcount hhas (h.termsFor_eq keyword)

/-- Filters that are the same by keyword stay so when a keyword is set, also one that occurs more than
once. -/
theorem set (h : filter.SameByKeyword other) (keyword : String) (value : KeywordValue)
    (relation : Relation) :
    (filter.set keyword value relation).SameByKeyword (other.set keyword value relation) := by
  cases hk : Keyword.isValid keyword with
  | false =>
    rw [set_of_not_isValid hk, set_of_not_isValid hk]
    exact h
  | true =>
    refine ⟨by rw [bareTerms_set, bareTerms_set, h.bareTerms_eq], fun name => ?_⟩
    by_cases hne : keyword = name
    · subst hne
      rw [termsFor_set_self hk, termsFor_set_self hk, h.termsFor_eq]
    · rw [termsFor_set_of_ne hne, termsFor_set_of_ne hne, h.termsFor_eq]

end SameByKeyword

/-- **Two keywords that are set in either order** give filters that are the same by keyword. -/
theorem sameByKeyword_set_comm {other : String} (hne : keyword ≠ other) (filter : Filter)
    (value value' : KeywordValue) (relation relation' : Relation) :
    ((filter.set keyword value relation).set other value' relation').SameByKeyword
      ((filter.set other value' relation').set keyword value relation) := by
  cases hk : Keyword.isValid keyword with
  | false =>
    rw [set_of_not_isValid hk, set_of_not_isValid hk]
    exact ⟨rfl, fun _ => rfl⟩
  | true =>
    cases ho : Keyword.isValid other with
    | false =>
      rw [set_of_not_isValid ho, set_of_not_isValid ho]
      exact ⟨rfl, fun _ => rfl⟩
    | true =>
      refine ⟨by simp only [bareTerms_set], fun name => ?_⟩
      by_cases hkeyword : keyword = name
      · subst hkeyword
        rw [termsFor_set_of_ne hne.symm, termsFor_set_self hk, termsFor_set_self hk,
          termsFor_set_of_ne hne.symm]
      · rw [termsFor_set_of_ne hkeyword]
        by_cases hother : other = name
        · subst hother
          rw [termsFor_set_self ho, termsFor_set_self ho, termsFor_set_of_ne hkeyword]
        · rw [termsFor_set_of_ne hother, termsFor_set_of_ne hother, termsFor_set_of_ne hkeyword]

end Filter

/-! ## Page steps -/

/-- The steps from page to page: to the two neighbouring pages, to the first page, and to all rows on
one. -/
def Edit.pageSteps (settings : Settings) : List Edit :=
  [.next settings, .previous settings, .firstPage, .allRows]

namespace Filter

variable {keyword : String}

/-- **A keyword that is set before a page step or after it** gives filters that are the same by keyword. -/
theorem sameByKeyword_pageStep_set (hfirst : keyword ≠ Keyword.first)
    (hrows : keyword ≠ Keyword.rows) (filter : Filter) (value : KeywordValue) (relation : Relation)
    {settings : Settings} {step : Edit} (hstep : step ∈ Edit.pageSteps settings) :
    ((filter.set keyword value relation).apply step).SameByKeyword
      ((filter.apply step).set keyword value relation) := by
  have hset (row : KeywordValue) :
      ((filter.set keyword value relation).setValue Keyword.first row).SameByKeyword
        ((filter.setValue Keyword.first row).set keyword value relation) :=
    sameByKeyword_set_comm hfirst filter value row relation .equal
  simp only [Edit.pageSteps, List.mem_cons, List.not_mem_nil, or_false] at hstep
  rcases hstep with rfl | rfl | rfl | rfl
  · rw [apply, apply, next, next, effectiveFirst_set hfirst, effectiveRows_set hrows]
    exact hset _
  · rw [apply, apply, previous, previous, effectiveFirst_set hfirst, effectiveRows_set hrows]
    exact hset _
  · exact hset (.number 1)
  · -- the first row is exchanged for the keyword under the number of rows, then that number
    exact ((hset (.number 1)).set Keyword.rows (.number everyRow) .equal).trans
      (sameByKeyword_set_comm hrows filter.firstPage value (.number everyRow) relation .equal)

/-- **A keyword can be deleted before a page step or after it.** -/
theorem pageStep_delete (hfirst : keyword ≠ Keyword.first) (hrows : keyword ≠ Keyword.rows)
    (filter : Filter) {settings : Settings} {step : Edit} (hstep : step ∈ Edit.pageSteps settings) :
    (filter.delete keyword).apply step = (filter.apply step).delete keyword := by
  have hset (row : KeywordValue) : (filter.delete keyword).setValue Keyword.first row
      = (filter.setValue Keyword.first row).delete keyword :=
    (delete_set_comm hfirst.symm filter row .equal).symm
  simp only [Edit.pageSteps, List.mem_cons, List.not_mem_nil, or_false] at hstep
  rcases hstep with rfl | rfl | rfl | rfl
  · rw [apply, apply, next, next, effectiveFirst_delete hfirst, effectiveRows_delete hrows]
    exact hset _
  · rw [apply, apply, previous, previous, effectiveFirst_delete hfirst, effectiveRows_delete hrows]
    exact hset _
  · exact hset (.number 1)
  · have hpage : (filter.delete keyword).firstPage = filter.firstPage.delete keyword :=
      hset (.number 1)
    rw [apply, apply, allRows, allRows, hpage]
    exact (delete_set_comm hrows.symm filter.firstPage (.number everyRow) .equal).symm

/-- **Page steps and other edits can be made in either order**, whatever the settings are and however
often keywords occur. A keyword other than `first` and `rows` that is set before a step to the next page,
to the page before, to the first page or to all rows gives a filter that is equal to the one with the
keyword set after the step. Deleted before the step or after it, the keyword leaves the same filter, with
the same list of terms. -/
theorem pageSteps_commute (hfirst : keyword ≠ Keyword.first) (hrows : keyword ≠ Keyword.rows)
    (filter : Filter) (settings : Settings) (value : KeywordValue) (relation : Relation) :
    ∀ step ∈ Edit.pageSteps settings,
      ((filter.set keyword value relation).apply step).equals
        ((filter.apply step).set keyword value relation) = true ∧
      (filter.delete keyword).apply step = (filter.apply step).delete keyword := by
  intro step hstep
  refine ⟨?_, pageStep_delete hfirst hrows filter hstep⟩
  rw [equals_iff_reorders]
  exact (sameByKeyword_pageStep_set hfirst hrows filter value relation hstep).reorders

/-- Sorting is set and a name deleted, one of two, before and after all rows are asked for. The term that
sorts is new, and so are those of the page, so that they stand in another order. -/
theorem pageSteps_commute_new :
    let filter := ofString "name=x word name=y"
    let sorted := filter.set "sort" (.text "due") .equal
    "sort" ≠ Keyword.first ∧ "sort" ≠ Keyword.rows ∧ "name" ≠ Keyword.first ∧
      "name" ≠ Keyword.rows ∧ Edit.allRows ∈ Edit.pageSteps .default ∧
      (sorted.apply .allRows).toFilterString = "name=x word name=y sort=due first=1 rows=-1" ∧
      ((filter.apply .allRows).set "sort" (.text "due") .equal).toFilterString
        = "name=x word name=y first=1 rows=-1 sort=due" ∧
      (sorted.apply .allRows).equals
        ((filter.apply .allRows).set "sort" (.text "due") .equal) = true ∧
      (filter.delete "name").apply .allRows = (filter.apply .allRows).delete "name" := by
  intro filter sorted
  have hsort : "sort" ≠ Keyword.first ∧ "sort" ≠ Keyword.rows := by decide
  have hname : "name" ≠ Keyword.first ∧ "name" ≠ Keyword.rows := by decide
  have hstep : Edit.allRows ∈ Edit.pageSteps .default := by decide
  have hset := pageSteps_commute hsort.1 hsort.2 filter .default (.text "due") .equal _ hstep
  have hdelete := pageSteps_commute hname.1 hname.2 filter .default (.number 0) .equal _ hstep
  refine ⟨hsort.1, hsort.2, hname.1, hname.2, hstep, ?_, ?_, hset.1, hdelete.2⟩
  · decide +kernel +zetaReduce
  · decide +kernel +zetaReduce

end Filter

end QueryFilter
