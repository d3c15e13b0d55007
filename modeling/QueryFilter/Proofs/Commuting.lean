import QueryFilter.Proofs.Congruence
import QueryFilter.Proofs.Overwriting

set_option relaxedAutoImplicit false
set_option autoImplicit false

/-!
# Setting and deleting in either order

Changes for different keywords do not get in each other's way: each of them looks for its own term and
passes over the others, whichever were written or taken out before. Only what is put at the end stands in
the order in which it was put there. So two keywords can be set in either order, with the same list of
terms as the result, exactly when one of the two finds a term to replace.

## Main results

* `QueryFilter.Term.upsert_upsert_comm_iff` — when two changes of a list commute.
* `QueryFilter.Filter.delete_set`, `QueryFilter.Filter.delete_comm`, `QueryFilter.Filter.delete_set_comm` —
  setting and deleting.
* `QueryFilter.Filter.terms_set_comm_iff`, `QueryFilter.Filter.reorders_set_comm` — setting two keywords.
* `QueryFilter.Filter.laws_of_set_and_delete` — all of these together.
-/

namespace QueryFilter

namespace Term

variable {keyword other : String} {change change' : Term → Term} {new new' : Term}

/-! ## Changes of a list -/

/-- Taking out the term of a keyword leaves nothing of a change for that keyword. -/
theorem eraseP_upsert_self (hnew : new.hasKeyword keyword = true)
    (hchange : ∀ term, term.hasKeyword keyword = true → (change term).hasKeyword keyword = true)
    (terms : List Term) :
    (upsert keyword change new terms).eraseP (·.hasKeyword keyword)
      = terms.eraseP (·.hasKeyword keyword) := by
  induction terms with
  | nil => simp [upsert, hnew]
  | cons term terms ih =>
    cases hterm : term.hasKeyword keyword with
    | true => simp [upsert, hterm, hchange term hterm]
    | false => simp [upsert, hterm, ih]

/-- Two changes for different keywords commute where one of them finds a term. -/
theorem upsert_upsert_comm (hne : keyword ≠ other)
    (hchange : ∀ term, (change term).keyword = term.keyword)
    (hchange' : ∀ term, (change' term).keyword = term.keyword) {terms : List Term}
    (h : ∃ term ∈ terms, term.hasKeyword keyword = true ∨ term.hasKeyword other = true) :
    upsert other change' new' (upsert keyword change new terms)
      = upsert keyword change new (upsert other change' new' terms) := by
  induction terms with
  | nil => simp at h
  | cons term terms ih =>
    cases hkeyword : term.hasKeyword keyword with
    | true =>
      -- the first change stops here, and the second one passes over what it leaves
      have hlacks := hasKeyword_eq_false_of_ne hkeyword hne
      have hchanged : (change term).hasKeyword other = false := by
        rwa [hasKeyword, hchange]
      simp [upsert, hkeyword, hlacks, hchanged]
    | false =>
      cases hother : term.hasKeyword other with
      | true =>
        have hchanged : (change' term).hasKeyword keyword = false := by
          rwa [hasKeyword, hchange']
        simp [upsert, hkeyword, hother, hchanged]
      | false =>
        have hrest : ∃ term ∈ terms,
            term.hasKeyword keyword = true ∨ term.hasKeyword other = true := by
          obtain ⟨found, hmem, hfound⟩ := h
          rcases List.mem_cons.1 hmem with rfl | hmem
          · simp [hkeyword, hother] at hfound
          · exact ⟨found, hmem, hfound⟩
        simp [upsert, hkeyword, hother, ih hrest]

/-- Two changes for different keywords that find no term put theirs at the end one after the other. -/
theorem upsert_upsert_eq_append (hne : keyword ≠ other) (hnew : new.keyword = some keyword)
    {terms : List Term}
    (h : ¬∃ term ∈ terms, term.hasKeyword keyword = true ∨ term.hasKeyword other = true) :
    upsert other change' new' (upsert keyword change new terms) = terms ++ [new, new'] := by
  have hkeyword : terms.findIdx? (·.hasKeyword keyword) = none := by
    rw [List.findIdx?_eq_none_iff]
    intro term hterm
    by_contra hhas
    exact h ⟨term, hterm, .inl (by simpa using hhas)⟩
  have hother : (terms ++ [new]).findIdx? (·.hasKeyword other) = none := by
    rw [List.findIdx?_eq_none_iff]
    intro term hterm
    rcases List.mem_append.1 hterm with hterm | hterm
    · by_contra hhas
      exact h ⟨term, hterm, .inr (by simpa using hhas)⟩
    · rw [List.mem_singleton.1 hterm]
      exact hasKeyword_eq_false_of_ne (hasKeyword_iff.2 hnew) hne
  rw [upsert_eq_append hkeyword, upsert_eq_append hother, List.append_assoc, List.singleton_append]

/-- **Two changes for different keywords commute** exactly where one of them finds a term: otherwise
both put one at the end, in the order of the changes. -/
theorem upsert_upsert_comm_iff (hne : keyword ≠ other) (hnew : new.keyword = some keyword)
    (hnew' : new'.keyword = some other) (hchange : ∀ term, (change term).keyword = term.keyword)
    (hchange' : ∀ term, (change' term).keyword = term.keyword) (terms : List Term) :
    upsert other change' new' (upsert keyword change new terms)
        = upsert keyword change new (upsert other change' new' terms) ↔
      ∃ term ∈ terms, term.hasKeyword keyword = true ∨ term.hasKeyword other = true := by
  constructor
  · intro heq
    by_contra hnone
    have hnone' : ¬∃ term ∈ terms,
        term.hasKeyword other = true ∨ term.hasKeyword keyword = true := by
      simpa only [or_comm] using hnone
    rw [upsert_upsert_eq_append hne hnew hnone, upsert_upsert_eq_append hne.symm hnew' hnone',
      List.append_cancel_left_eq, List.cons.injEq] at heq
    rw [heq.1, hnew', Option.some.injEq] at hnew
    exact hne hnew.symm
  · exact upsert_upsert_comm hne hchange hchange'

end Term

namespace Filter

variable {keyword other : String}

/-! ## Setting and deleting -/

/-- Deleting a keyword leaves nothing of what it was set to. -/
theorem delete_set (hk : Keyword.isValid keyword = true) (filter : Filter) (value : KeywordValue)
    (relation : Relation) :
    (filter.set keyword value relation).delete keyword = filter.delete keyword := by
  have hnew := Term.hasKeyword_keyed (Keyword.ne_empty_of_isValid hk) relation value.stored
  rw [set, if_pos hk, delete, delete, Term.eraseP_upsert_self hnew]
  intro term hterm
  exact hterm

/-- Two keywords can be deleted in either order. -/
theorem delete_comm (filter : Filter) (keyword other : String) :
    (filter.delete keyword).delete other = (filter.delete other).delete keyword := by
  by_cases hne : keyword = other
  · rw [hne]
  · rw [delete, delete, delete, delete, Term.eraseP_eraseP_comm hne]

/-- One keyword can be set and another one deleted in either order. -/
theorem delete_set_comm (hne : keyword ≠ other) (filter : Filter) (value : KeywordValue)
    (relation : Relation) :
    (filter.set keyword value relation).delete other
      = (filter.delete other).set keyword value relation := by
  unfold set
  split
  · next hk =>
    have hnew := Term.keyword_keyed hk relation value.stored
    rw [delete, delete,
      Term.eraseP_upsert hne hnew (Term.keyword_replace · relation value.stored)]
  · rfl

/-! ## Setting two keywords -/

/-- Two valid keywords that are set in either order. -/
theorem terms_set_set (hk : Keyword.isValid keyword = true) (ho : Keyword.isValid other = true)
    (filter : Filter) (value value' : KeywordValue) (relation relation' : Relation) :
    ((filter.set keyword value relation).set other value' relation').terms
      = Term.upsert other (·.replace relation' value'.stored) (.keyed other relation' value'.stored)
        (Term.upsert keyword (·.replace relation value.stored)
          (.keyed keyword relation value.stored) filter.terms) := by
  rw [set, if_pos ho, set, if_pos hk]

/-- **Two keywords can be set in either order** with the same list of terms as the result, exactly when
the filter has one of them or one of them is invalid. -/
theorem terms_set_comm_iff (hne : keyword ≠ other) (filter : Filter) (value value' : KeywordValue)
    (relation relation' : Relation) :
    ((filter.set keyword value relation).set other value' relation').terms
        = ((filter.set other value' relation').set keyword value relation).terms ↔
      filter.has keyword = true ∨ filter.has other = true ∨ Keyword.isValid keyword = false ∨
        Keyword.isValid other = false := by
  cases hk : Keyword.isValid keyword with
  | false => simp [set_of_not_isValid hk]
  | true =>
    cases ho : Keyword.isValid other with
    | false => simp [set_of_not_isValid ho]
    | true =>
      have hnew := Term.keyword_keyed hk relation value.stored
      have hnew' := Term.keyword_keyed ho relation' value'.stored
      rw [terms_set_set hk ho, terms_set_set ho hk,
        Term.upsert_upsert_comm_iff hne hnew hnew' (Term.keyword_replace · relation value.stored)
          (Term.keyword_replace · relation' value'.stored), has_iff, has_iff]
      simp [and_or_left, exists_or]

/-- Two keywords that are set in either order give the same filter but for the order of new terms. -/
theorem reorders_set_comm (hne : keyword ≠ other) (filter : Filter) (value value' : KeywordValue)
    (relation relation' : Relation) :
    ((filter.set keyword value relation).set other value' relation').Reorders
      ((filter.set other value' relation').set keyword value relation) := by
  refine ⟨?_, by simp only [bareTerms_set]⟩
  cases hk : Keyword.isValid keyword with
  | false => simp [set_of_not_isValid hk]
  | true =>
    cases ho : Keyword.isValid other with
    | false => simp [set_of_not_isValid ho]
    | true =>
      have hnew := Term.keyword_keyed hk relation value.stored
      have hnew' := Term.keyword_keyed ho relation' value'.stored
      rw [terms_set_set hk ho, terms_set_set ho hk]
      exact Term.upsert_upsert_perm hne hnew (Term.keyword_replace · relation value.stored) hnew'
        (Term.keyword_replace · relation' value'.stored) filter.terms

/-- **The laws of setting and deleting**, for two different keywords and any terms. What a keyword is set
to last counts, and nothing is left of it when the keyword is deleted. Two keywords can be deleted in
either order, or one of them set and the other deleted. Set in either order they give the same list of
terms exactly when the filter has one of them or one of them is invalid, and equal filters always. -/
theorem laws_of_set_and_delete (hne : keyword ≠ other) (filter : Filter)
    (value value' : KeywordValue) (relation relation' : Relation) :
    (filter.set keyword value relation).set keyword value' relation'
        = filter.set keyword value' relation' ∧
      (Keyword.isValid keyword = true →
        (filter.set keyword value relation).delete keyword = filter.delete keyword) ∧
      (filter.delete keyword).delete other = (filter.delete other).delete keyword ∧
      (filter.set keyword value relation).delete other
        = (filter.delete other).set keyword value relation ∧
      (((filter.set keyword value relation).set other value' relation').terms
          = ((filter.set other value' relation').set keyword value relation).terms ↔
        filter.has keyword = true ∨ filter.has other = true ∨ Keyword.isValid keyword = false ∨
          Keyword.isValid other = false) ∧
      ((filter.set keyword value relation).set other value' relation').equals
        ((filter.set other value' relation').set keyword value relation) = true := by
  refine ⟨set_set filter keyword value value' relation relation', ?_,
    delete_comm filter keyword other, delete_set_comm hne filter value relation,
    terms_set_comm_iff hne filter value value' relation relation', ?_⟩
  · intro hk
    exact delete_set hk filter value relation
  · rw [equals_iff_reorders]
    exact reorders_set_comm hne filter value value' relation relation'

/-- Two new keywords that are set in a filter with two terms for another one. -/
theorem laws_of_set_and_delete_new :
    let filter := ofString "name=x word name=y"
    let rows := filter.set "rows" (.number 5) .equal
    let sorted := filter.set "sort" (.text "due date") .equal
    "rows" ≠ "sort" ∧ Keyword.isValid "rows" = true ∧
      rows.set "rows" (.number 7) .greater = filter.set "rows" (.number 7) .greater ∧
      rows.delete "rows" = filter.delete "rows" ∧
      rows.delete "sort" = (filter.delete "sort").set "rows" (.number 5) .equal ∧
      (rows.set "sort" (.text "due date") .equal).terms
        ≠ (sorted.set "rows" (.number 5) .equal).terms ∧
      (rows.set "sort" (.text "due date") .equal).equals
        (sorted.set "rows" (.number 5) .equal) = true := by
  intro filter rows sorted
  have hne : "rows" ≠ "sort" := by decide
  have hk : Keyword.isValid "rows" = true := by decide
  have hnone : ¬(filter.has "rows" = true ∨ filter.has "sort" = true ∨
      Keyword.isValid "rows" = false ∨ Keyword.isValid "sort" = false) := by
    decide +kernel +zetaReduce
  obtain ⟨-, hdelete, -, hsetDelete, hcomm, hequals⟩ :=
    laws_of_set_and_delete hne filter (.number 5) (.text "due date") .equal .equal
  obtain ⟨hset, -⟩ := laws_of_set_and_delete hne filter (.number 5) (.number 7) .equal .greater
  exact ⟨hne, hk, hset, hdelete hk, hsetDelete, mt hcomm.1 hnone, hequals⟩

end Filter

end QueryFilter
