import QueryFilter.Filter.Keywords

set_option relaxedAutoImplicit false
set_option autoImplicit false

/-!
# Where a keyword is set

The term of a keyword that is set stands at the place of the first term that had the keyword, or at
the end if none had it. Setting the keyword once more overwrites that term, so that nothing is left of
what was set before.

## Main results

* `QueryFilter.Term.upsert_eq_set`, `QueryFilter.Term.upsert_eq_append` — the place of a change.
* `QueryFilter.Filter.set_eq_of_findIdx?_eq_some`, `QueryFilter.Filter.set_eq_of_findIdx?_eq_none` — the
  place of the term that is set.
* `QueryFilter.Filter.set_set` — what is set last counts.
-/

namespace QueryFilter

namespace Term

variable {keyword : String} {change : Term → Term} {new : Term}

/-- A change that makes the same term of every term with the keyword puts it at the place of the first
one. -/
theorem upsert_eq_set {target : Term}
    (hchange : ∀ term, term.hasKeyword keyword = true → change term = target) {terms : List Term}
    {i : Nat} (h : terms.findIdx? (·.hasKeyword keyword) = some i) :
    upsert keyword change new terms = terms.set i target := by
  induction terms generalizing i with
  | nil => simp at h
  | cons term terms ih =>
    rw [List.findIdx?_cons] at h
    rw [upsert]
    cases hterm : term.hasKeyword keyword with
    | true =>
      simp only [hterm, if_true, Option.some.injEq] at h
      subst h
      rw [if_pos rfl, hchange term hterm, List.set_cons_zero]
    | false =>
      simp only [hterm, Bool.false_eq_true, if_false, Option.map_eq_some_iff] at h
      obtain ⟨j, hj, rfl⟩ := h
      rw [if_neg Bool.false_ne_true, ih hj, List.set_cons_succ]

/-- A change finds no term with the keyword and puts the new one at the end. -/
theorem upsert_eq_append {terms : List Term}
    (h : terms.findIdx? (·.hasKeyword keyword) = none) :
    upsert keyword change new terms = terms ++ [new] := by
  rw [List.findIdx?_eq_none_iff] at h
  induction terms with
  | nil => rfl
  | cons term terms ih =>
    have hterm := h term List.mem_cons_self
    have hrest : ∀ other ∈ terms, other.hasKeyword keyword = false :=
      fun other hother => h other (List.mem_cons_of_mem term hother)
    rw [upsert, hterm, if_neg Bool.false_ne_true, ih hrest, List.cons_append]

/-- Of two changes for a keyword the second one counts, when it makes the same term of what the first
one left as of what was there, and its new term of the first one's. -/
theorem upsert_upsert {change' : Term → Term} {new' : Term}
    (hnew : new.hasKeyword keyword = true) (hnew' : change' new = new')
    (hkeep : ∀ term, term.hasKeyword keyword = true → (change term).hasKeyword keyword = true)
    (hchange : ∀ term, term.hasKeyword keyword = true → change' (change term) = change' term)
    (terms : List Term) :
    upsert keyword change' new' (upsert keyword change new terms)
      = upsert keyword change' new' terms := by
  induction terms with
  | nil => simp [upsert, hnew, hnew']
  | cons term terms ih =>
    cases hterm : term.hasKeyword keyword with
    | true => simp [upsert, hterm, hkeep term hterm, hchange term hterm]
    | false => simp [upsert, hterm, ih]

end Term

namespace Filter

variable {filter : Filter} {keyword : String}

/-- The term of a keyword that is set stands where the first term with the keyword stood. -/
theorem set_eq_of_findIdx?_eq_some (hk : Keyword.isValid keyword = true) {i : Nat}
    (h : filter.terms.findIdx? (·.hasKeyword keyword) = some i) (value : KeywordValue)
    (relation : Relation) :
    filter.set keyword value relation
      = { filter with terms := filter.terms.set i (.keyed keyword relation value.stored) } := by
  rw [set, if_pos hk, Term.upsert_eq_set _ h]
  intro term hterm
  exact Term.replace_eq_keyed hterm relation value.stored

/-- The term of a keyword that is set stands at the end, if no term had the keyword. -/
theorem set_eq_of_findIdx?_eq_none (hk : Keyword.isValid keyword = true)
    (h : filter.terms.findIdx? (·.hasKeyword keyword) = none) (value : KeywordValue)
    (relation : Relation) :
    filter.set keyword value relation
      = { filter with terms := filter.terms ++ [.keyed keyword relation value.stored] } := by
  rw [set, if_pos hk, Term.upsert_eq_append h]

/-- Setting an invalid keyword changes nothing. -/
theorem set_of_not_isValid (hk : Keyword.isValid keyword = false) (filter : Filter)
    (value : KeywordValue) (relation : Relation) : filter.set keyword value relation = filter :=
  if_neg (by simp [hk])

/-- **What is set last counts**: of what was set for the keyword before, nothing is left. -/
theorem set_set (filter : Filter) (keyword : String) (value value' : KeywordValue)
    (relation relation' : Relation) :
    (filter.set keyword value relation).set keyword value' relation'
      = filter.set keyword value' relation' := by
  cases hk : Keyword.isValid keyword with
  | true =>
    have hnew := Term.hasKeyword_keyed (Keyword.ne_empty_of_isValid hk) relation value.stored
    rw [set, set, set, if_pos hk, if_pos hk, if_pos hk, Term.upsert_upsert hnew]
    · exact Term.replace_eq_keyed hnew relation' value'.stored
    · intro term hterm
      exact hterm
    · intro term _
      rfl
  | false => rw [set_of_not_isValid hk filter value relation]

end Filter

end QueryFilter
