import Mathlib.Data.List.Nodup
import QueryFilter.Proofs.DistinctKeywords
import QueryFilter.Proofs.Survival

set_option relaxedAutoImplicit false
set_option autoImplicit false

/-!
# How often a keyword occurs

A keyword may occur more than once in a filter, but only where it did from the start: an edit that writes
a term for a keyword looks for one to replace, and puts a new one in only if there is none. This is shown
for the changes that edits are made of, and so holds of all edits and runs of edits, whatever they merge.

## Main definitions

* `QueryFilter.Term.occurrences` — how many terms have a keyword.

## Main results

* `QueryFilter.Change.occurrences_run_le` — a change does not make a keyword occur more often, except a
  first time.
* `QueryFilter.Filter.occurrences_apply_le`, `QueryFilter.Filter.occurrences_applyAll_le` — the same for an
  edit and for a run of edits.
* `QueryFilter.Filter.keywords_stay_distinct` — keywords that are distinct stay so.
-/

namespace QueryFilter

/-- What no step makes greater than it was, or one, is not made so by a run of steps. -/
theorem le_max_foldl {State Step : Type} {step : State → Step → State} (size : State → Nat)
    (h : ∀ state next, size (step state next) ≤ max 1 (size state)) (steps : List Step)
    (state : State) : size (steps.foldl step state) ≤ max 1 (size state) := by
  induction steps generalizing state with
  | nil => exact Nat.le_max_right _ _
  | cons next steps ih =>
    have hnext := h state next
    have hrest := ih (step state next)
    rw [List.foldl_cons]
    omega

namespace Term

/-- How many terms have a keyword. -/
def occurrences (keyword : String) (terms : List Term) : Nat :=
  terms.countP (·.hasKeyword keyword)

variable {keyword : String}

/-- A keyword occurs as often as it is found among the keywords. -/
theorem occurrences_eq_count (keyword : String) (terms : List Term) :
    occurrences keyword terms = (terms.filterMap Term.keyword).count keyword := by
  rw [occurrences, List.count_filterMap]
  rfl

/-- No keyword occurs twice when keywords are distinct. -/
theorem distinctKeywords_iff_occurrences_le {terms : List Term} :
    DistinctKeywords terms ↔ ∀ keyword, occurrences keyword terms ≤ 1 := by
  simp only [DistinctKeywords, List.nodup_iff_count_le_one, occurrences_eq_count]

/-- A keyword does not occur more often when terms are taken out. -/
theorem occurrences_le_of_sublist {terms others : List Term} (h : others.Sublist terms) :
    occurrences keyword others ≤ occurrences keyword terms :=
  h.countP_le

/-- A change for a keyword makes it occur once if it did not, and leaves others as often as they were. -/
theorem occurrences_upsert_le {written : String} {change : Term → Term} {new : Term}
    (hnew : new.keyword = some written) (hchange : ∀ term, (change term).keyword = term.keyword)
    (terms : List Term) :
    occurrences keyword (upsert written change new terms)
      ≤ max 1 (occurrences keyword terms) := by
  rw [occurrences_eq_count, occurrences_eq_count, keywords_upsert hnew hchange]
  split
  · exact Nat.le_max_right _ _
  · next habsent =>
    rw [List.count_append, List.count_singleton]
    by_cases hsame : written = keyword
    · subst hsame
      have hzero := List.count_eq_zero_of_not_mem habsent
      simp [hzero]
    · have hone : (written == keyword) = false := beq_eq_false_iff_ne.2 hsame
      simp only [hone, Bool.false_eq_true, if_false]
      omega

/-- A term that has the keyword of a sort term is one too. -/
theorem isSort_of_hasKeyword {new term : Term} (hnew : new.isSort = true)
    (hkeyword : new.hasKeyword keyword = true) (hterm : term.hasKeyword keyword = true) :
    term.isSort = true := by
  have hsame : term.keyword = new.keyword := by
    rw [hasKeyword_iff.1 hterm, hasKeyword_iff.1 hkeyword]
  rwa [isSort, hasKeyword, hasKeyword, hsame]

/-- A sort term that is written is the only one for its keyword, and makes others occur no more often. -/
theorem occurrences_writeSort_le {new : Term} (hnew : new.isSort = true) (terms : List Term) :
    occurrences keyword (writeSort new terms) ≤ max 1 (occurrences keyword terms) := by
  have hperm : occurrences keyword (writeSort new terms)
      = occurrences keyword (terms.filter (!·.isSort))
        + if new.hasKeyword keyword = true then 1 else 0 := by
    rw [occurrences, (writeSort_perm new terms).countP_eq, List.countP_cons, occurrences]
  have hrest : occurrences keyword (terms.filter (!·.isSort)) ≤ occurrences keyword terms :=
    occurrences_le_of_sublist List.filter_sublist
  by_cases hkeyword : new.hasKeyword keyword = true
  · -- the keyword is one that sorts, and no other term with it is left
    have hnone : occurrences keyword (terms.filter (!·.isSort)) = 0 := by
      rw [occurrences, List.countP_eq_zero]
      intro term hterm hhas
      have hsort := isSort_of_hasKeyword hnew hkeyword hhas
      simp [hsort] at hterm
    rw [hperm, hnone, if_pos hkeyword]
    omega
  · rw [hperm, if_neg hkeyword]
    omega

end Term

/-- **A change makes no keyword occur more often**, except a first time. -/
theorem Change.occurrences_run_le (keyword : String) (terms : List Term) (change : Change) :
    Term.occurrences keyword (change.run terms) ≤ max 1 (Term.occurrences keyword terms) := by
  have hless {others : List Term} (h : others.Sublist terms) :
      Term.occurrences keyword others ≤ max 1 (Term.occurrences keyword terms) :=
    (Term.occurrences_le_of_sublist h).trans (Nat.le_max_right _ _)
  cases change with
  | write written relation value new hnew =>
    exact Term.occurrences_upsert_le hnew (Term.keyword_replace · relation value) terms
  | erase erased => exact hless List.eraseP_sublist
  | sort order value =>
    exact Term.occurrences_writeSort_le (Term.isSort_keyed order .equal value) terms
  | dropPaging => exact hless List.filter_sublist

namespace Filter

open Term (occurrences DistinctKeywords)

/-- **An edit makes no keyword occur more often**, except a first time. -/
theorem occurrences_apply_le (keyword : String) (filter : Filter) (edit : Edit) :
    occurrences keyword (filter.apply edit).terms ≤ max 1 (occurrences keyword filter.terms) := by
  rw [terms_apply]
  exact le_max_foldl (occurrences keyword) (Change.occurrences_run_le keyword) (edit.changes filter)
    filter.terms

/-- A run of edits makes no keyword occur more often, except a first time. -/
theorem occurrences_applyAll_le (keyword : String) (filter : Filter) (edits : List Edit) :
    occurrences keyword (filter.applyAll edits).terms
      ≤ max 1 (occurrences keyword filter.terms) :=
  le_max_foldl (fun filter : Filter => occurrences keyword filter.terms)
    (occurrences_apply_le keyword) edits filter

/-- **No edit introduces a keyword twice.** After any run of edits, whatever they set and merge, a keyword
occurs at most as often as at the start, or once. So keywords that are distinct stay distinct. -/
theorem keywords_stay_distinct (filter : Filter) (edits : List Edit) :
    (∀ keyword, occurrences keyword (filter.applyAll edits).terms
      ≤ max 1 (occurrences keyword filter.terms)) ∧
    (DistinctKeywords filter.terms → DistinctKeywords (filter.applyAll edits).terms) := by
  refine ⟨fun keyword => occurrences_applyAll_le keyword filter edits, ?_⟩
  intro hdistinct
  rw [Term.distinctKeywords_iff_occurrences_le] at hdistinct ⊢
  intro keyword
  have hstart := hdistinct keyword
  have hrun := occurrences_applyAll_le keyword filter edits
  omega

/-- A filter that sorts in one order, into which one is merged that holds two keywords twice, one of them
for the other order. -/
theorem keywords_stay_distinct_five :
    let filter := ofString "a=1 word sort=due"
    let edits : List Edit :=
      [.mergeKeywords (ofString "b=1 sort-reverse=x b=2 a=3 sort-reverse=y"), .set "c" (.number 1) .less,
        .setSortOrder .descending]
    DistinctKeywords filter.terms ∧
      (filter.applyAll edits).terms
        = [.keyed "a" .equal "3", .bare none "word", .keyed "sort-reverse" .equal "due",
          .keyed "b" .equal "2", .keyed "c" .less "1"] ∧
      occurrences "b" (filter.applyAll edits).terms ≤ max 1 (occurrences "b" filter.terms) ∧
      DistinctKeywords (filter.applyAll edits).terms := by
  intro filter edits
  have hdistinct : DistinctKeywords filter.terms := by decide +kernel +zetaReduce
  obtain ⟨hoccurrences, hrun⟩ := keywords_stay_distinct filter edits
  exact ⟨hdistinct, by decide +kernel +zetaReduce, hoccurrences "b", hrun hdistinct⟩

end Filter

end QueryFilter
