import QueryFilter.Proofs.DistinctKeywords
import QueryFilter.Proofs.Equality
import QueryFilter.Proofs.Survival

set_option relaxedAutoImplicit false
set_option autoImplicit false

/-!
# Equal filters stay equal

Look-ups and edits follow the order of the terms, and equality does not. Where no keyword occurs
twice this makes no difference: equal filters answer alike, and what an edit makes of them is equal
again. This is shown for two filters of which one reorders the other, edit by edit.

## Main results

* `QueryFilter.Filter.Reorders.getTerm?_eq` — the same term is found.
* `QueryFilter.Filter.Reorders.set`, `QueryFilter.Filter.Reorders.mergeKeywords` — keywords are set
  and taken over alike.
* `QueryFilter.Filter.pairwise_isSort`, `QueryFilter.Filter.Reorders.setSortBy` — the same for
  sorting, where the two keywords that sort do not occur together.
* `QueryFilter.Filter.equals_congr` — all look-ups and edits together.
-/

namespace QueryFilter

open Term (DistinctKeywords)

namespace Filter

/-- Keywords stay distinct when one of them is set. -/
theorem distinctKeywords_set {filter : Filter} (h : DistinctKeywords filter.terms)
    (keyword : String) (value : KeywordValue) (relation : Relation) :
    DistinctKeywords (filter.set keyword value relation).terms := by
  unfold set
  split
  · next hk =>
    exact h.upsert (Term.keyword_keyed hk relation value.stored) fun _ => rfl
  · exact h

namespace Reorders

variable {filter other : Filter}

/-! ## Look-ups -/

/-- The same term is found for a keyword. -/
theorem getTerm?_eq (h : filter.Reorders other) (hdistinct : DistinctKeywords filter.terms)
    (keyword : String) : filter.getTerm? keyword = other.getTerm? keyword :=
  Term.find?_eq_of_perm h.1 (hdistinct.pairwise keyword)

/-- The same keywords are there. -/
theorem has_eq (h : filter.Reorders other) (hdistinct : DistinctKeywords filter.terms)
    (keyword : String) : filter.has keyword = other.has keyword := by
  rw [has, has, h.getTerm?_eq hdistinct]

/-- The same value is found for a keyword. -/
theorem getWith?_eq (h : filter.Reorders other) (hdistinct : DistinctKeywords filter.terms)
    (settings : Settings) (keyword : String) :
    filter.getWith? settings keyword = other.getWith? settings keyword := by
  rw [getWith?, getWith?, h.getTerm?_eq hdistinct]

/-- The page starts at the same row. -/
theorem effectiveFirst_eq (h : filter.Reorders other) (hdistinct : DistinctKeywords filter.terms)
    (settings : Settings) : filter.effectiveFirst settings = other.effectiveFirst settings := by
  rw [effectiveFirst, effectiveFirst, positiveNumber?, positiveNumber?, h.getWith?_eq hdistinct]

/-- The page has as many rows. -/
theorem effectiveRows_eq (h : filter.Reorders other) (hdistinct : DistinctKeywords filter.terms)
    (settings : Settings) : filter.effectiveRows settings = other.effectiveRows settings := by
  rw [effectiveRows, effectiveRows, positiveNumber?, positiveNumber?, h.getWith?_eq hdistinct]

/-! ## Keywords and paging -/

/-- A keyword is set alike. -/
theorem set (h : filter.Reorders other) (hdistinct : DistinctKeywords filter.terms)
    (keyword : String) (value : KeywordValue) (relation : Relation) :
    (filter.set keyword value relation).Reorders (other.set keyword value relation) := by
  refine ⟨?_, by rw [bareTerms_set, bareTerms_set, h.2]⟩
  unfold Filter.set
  split
  · exact Term.upsert_perm_of_perm h.1 hdistinct
  · exact h.1

/-- A keyword is deleted alike. -/
theorem delete (h : filter.Reorders other) (hdistinct : DistinctKeywords filter.terms)
    (keyword : String) : (filter.delete keyword).Reorders (other.delete keyword) := by
  have hbare (f : Filter) : (f.delete keyword).bareTerms = f.bareTerms :=
    bareTerms_apply f (.delete keyword)
  refine ⟨?_, by rw [hbare, hbare, h.2]⟩
  exact h.1.eraseP _ (hdistinct.pairwise keyword)

/-- The next page is asked for alike. -/
theorem next (h : filter.Reorders other) (hdistinct : DistinctKeywords filter.terms)
    (settings : Settings) : (filter.next settings).Reorders (other.next settings) := by
  rw [Filter.next, Filter.next, h.effectiveFirst_eq hdistinct, h.effectiveRows_eq hdistinct]
  exact h.set hdistinct _ _ _

/-- The page before is asked for alike. -/
theorem previous (h : filter.Reorders other) (hdistinct : DistinctKeywords filter.terms)
    (settings : Settings) : (filter.previous settings).Reorders (other.previous settings) := by
  rw [Filter.previous, Filter.previous, h.effectiveFirst_eq hdistinct,
    h.effectiveRows_eq hdistinct]
  exact h.set hdistinct _ _ _

/-- All rows are asked for alike. -/
theorem allRows (h : filter.Reorders other) (hdistinct : DistinctKeywords filter.terms) :
    filter.allRows.Reorders other.allRows := by
  have hfirst : filter.firstPage.Reorders other.firstPage := h.set hdistinct _ _ _
  exact hfirst.set (distinctKeywords_set hdistinct _ _ _) _ _ _

/-- The terms of paging and sorting are left out alike. -/
theorem simple (h : filter.Reorders other) : filter.simple.Reorders other.simple := by
  have hbare (f : Filter) : f.simple.bareTerms = f.bareTerms := bareTerms_apply f .simple
  exact ⟨h.1.filter _, by rw [hbare, hbare, h.2]⟩

/-- The keywords of filters that reorder each other are taken over alike. -/
theorem mergeKeywords (h : filter.Reorders other) (hdistinct : DistinctKeywords filter.terms)
    {source source' : Filter} (hsource : source.Reorders source')
    (hdistinct' : DistinctKeywords source.terms) :
    (filter.mergeKeywords source).Reorders (other.mergeKeywords source') := by
  have hbare (f g : Filter) : (f.mergeKeywords g).bareTerms = f.bareTerms :=
    bareTerms_apply f (.mergeKeywords g)
  refine ⟨?_, by rw [hbare, hbare, h.2]⟩
  exact foldl_mergeTerm_perm hsource.1 hdistinct' h.1 hdistinct

/-! ## Sorting -/

/-- A sort term is written alike, whether or not others are there. -/
theorem writeSort (h : filter.Reorders other) (order : SortOrder) (field : String) :
    (filter.writeSort order field).Reorders (other.writeSort order field) := by
  have hnew := Term.isSort_keyed order .equal (quoteValue field)
  have hbare (f : Filter) : (f.writeSort order field).bareTerms = f.bareTerms :=
    Term.filter_writeSort (Term.isBare_eq_false_of_isSort hnew)
      (fun _ => Term.isBare_eq_false_of_isSort) f.terms
  refine ⟨?_, by rw [hbare, hbare, h.2]⟩
  have hkept := h.1.filter (!·.isSort)
  exact (Term.writeSort_perm _ filter.terms).trans
    ((hkept.cons _).trans (Term.writeSort_perm _ other.terms).symm)

end Reorders

/-- A keyword is there when some term has it. -/
theorem has_iff {filter : Filter} {keyword : String} :
    filter.has keyword = true ↔ ∃ term ∈ filter.terms, term.hasKeyword keyword = true := by
  rw [has, getTerm?, List.find?_isSome]

/-- At most one term sorts when keywords are distinct and those that sort do not occur together. -/
theorem pairwise_isSort {filter : Filter} (hdistinct : DistinctKeywords filter.terms)
    (hsort : ¬(filter.has Keyword.sort = true ∧ filter.has Keyword.sortReverse = true)) :
    filter.terms.Pairwise fun a b => a.isSort = true → b.isSort = true → False := by
  have hpair := (hdistinct.pairwise Keyword.sort).and (hdistinct.pairwise Keyword.sortReverse)
  refine hpair.imp_of_mem ?_
  intro a b hamem hbmem hone ha hb
  rcases Bool.or_eq_true_iff.1 ha with ha | ha
  · rcases Bool.or_eq_true_iff.1 hb with hb | hb
    · exact hone.1 ha hb
    · exact hsort ⟨has_iff.2 ⟨a, hamem, ha⟩, has_iff.2 ⟨b, hbmem, hb⟩⟩
  · rcases Bool.or_eq_true_iff.1 hb with hb | hb
    · exact hsort ⟨has_iff.2 ⟨b, hbmem, hb⟩, has_iff.2 ⟨a, hamem, ha⟩⟩
    · exact hone.2 ha hb

namespace Reorders

variable {filter other : Filter}

/-- The same term says how to sort, where only one does. -/
theorem sortTerm?_eq (h : filter.Reorders other)
    (hone : filter.terms.Pairwise fun a b => a.isSort = true → b.isSort = true → False) :
    filter.sortTerm? = other.sortTerm? :=
  Term.find?_eq_of_perm h.1 hone

/-- The field to sort by is written alike. -/
theorem setSortBy (h : filter.Reorders other)
    (hone : filter.terms.Pairwise fun a b => a.isSort = true → b.isSort = true → False)
    (field : String) : (filter.setSortBy field).Reorders (other.setSortBy field) := by
  rw [Filter.setSortBy, Filter.setSortBy, sortOrder?, sortOrder?, h.sortTerm?_eq hone]
  exact h.writeSort _ field

/-- The order to sort in is written alike. -/
theorem setSortOrder (h : filter.Reorders other)
    (hone : filter.terms.Pairwise fun a b => a.isSort = true → b.isSort = true → False)
    (order : SortOrder) : (filter.setSortOrder order).Reorders (other.setSortOrder order) := by
  have hfields : filter.sortBy? = other.sortBy? := by
    rw [sortBy?, sortBy?, h.sortTerm?_eq hone]
  cases hfield : other.sortBy? with
  | none =>
    rw [setSortOrder_of_none (hfields.trans hfield), setSortOrder_of_none hfield]
    exact h
  | some field =>
    rw [setSortOrder_of_some (hfields.trans hfield), setSortOrder_of_some hfield]
    exact h.writeSort order field

end Reorders

/-- **Equality is kept by look-ups and edits.** Two filters are equal, and so are two others whose
keywords are to be taken over; no keyword occurs twice in the first one of each pair. Then look-ups
in the two filters answer alike, and what an edit makes of them is equal again. Sorting does so when
the two keywords that sort do not occur together. Terms with a keyword may lack a relation. -/
theorem equals_congr {filter other source source' : Filter} (h : filter.equals other = true)
    (hsource : source.equals source' = true) (hdistinct : DistinctKeywords filter.terms)
    (hdistinct' : DistinctKeywords source.terms) :
    (∀ keyword, filter.getTerm? keyword = other.getTerm? keyword ∧
      filter.has keyword = other.has keyword ∧
      ∀ settings, filter.getWith? settings keyword = other.getWith? settings keyword) ∧
    (∀ keyword value relation,
      (filter.set keyword value relation).equals (other.set keyword value relation) = true) ∧
    (∀ keyword, (filter.delete keyword).equals (other.delete keyword) = true) ∧
    (∀ settings, (filter.next settings).equals (other.next settings) = true) ∧
    (∀ settings, (filter.previous settings).equals (other.previous settings) = true) ∧
    filter.firstPage.equals other.firstPage = true ∧
    filter.allRows.equals other.allRows = true ∧
    filter.simple.equals other.simple = true ∧
    (filter.mergeKeywords source).equals (other.mergeKeywords source') = true ∧
    (¬(filter.has Keyword.sort = true ∧ filter.has Keyword.sortReverse = true) →
      (∀ field, (filter.setSortBy field).equals (other.setSortBy field) = true) ∧
      ∀ order, (filter.setSortOrder order).equals (other.setSortOrder order) = true) := by
  simp only [equals_iff_reorders] at h hsource ⊢
  refine ⟨?_, h.set hdistinct, h.delete hdistinct, h.next hdistinct, h.previous hdistinct,
    h.set hdistinct _ _ _, h.allRows hdistinct, h.simple,
    h.mergeKeywords hdistinct hsource hdistinct', ?_⟩
  · intro keyword
    exact ⟨h.getTerm?_eq hdistinct keyword, h.has_eq hdistinct keyword,
      fun settings => h.getWith?_eq hdistinct settings keyword⟩
  · intro hsort
    have hone := pairwise_isSort hdistinct hsort
    exact ⟨h.setSortBy hone, h.setSortOrder hone⟩

/-- Two filters with a bare word between their terms, and two that share a keyword with them. -/
theorem equals_congr_four :
    let filter := ofString "name=x rows=5 word sort=due"
    let other := ofString "sort=due word rows=5 name=x"
    let source := ofString "first=3 name~y"
    let source' := ofString "name~y first=3"
    filter.equals other = true ∧ source.equals source' = true ∧
      DistinctKeywords filter.terms ∧ DistinctKeywords source.terms ∧
      ¬(filter.has Keyword.sort = true ∧ filter.has Keyword.sortReverse = true) ∧
      (filter.mergeKeywords source).equals (other.mergeKeywords source') = true ∧
      (filter.next .default).equals (other.next .default) = true ∧
      (filter.setSortOrder .descending).equals (other.setSortOrder .descending) = true := by
  intro filter other source source'
  have h : filter.equals other = true := by
    rw [equals_iff_reorders, Reorders]
    decide +kernel +zetaReduce
  have hsource : source.equals source' = true := by
    rw [equals_iff_reorders, Reorders]
    decide +kernel +zetaReduce
  have hdistinct : DistinctKeywords filter.terms := by decide +kernel +zetaReduce
  have hdistinct' : DistinctKeywords source.terms := by decide +kernel +zetaReduce
  have hsort : ¬(filter.has Keyword.sort = true ∧ filter.has Keyword.sortReverse = true) := by
    decide +kernel +zetaReduce
  obtain ⟨-, -, -, hnext, -, -, -, -, hmerge, hsorting⟩ :=
    equals_congr h hsource hdistinct hdistinct'
  exact ⟨h, hsource, hdistinct, hdistinct', hsort, hmerge, hnext .default,
    (hsorting hsort).2 .descending⟩

end Filter

end QueryFilter
