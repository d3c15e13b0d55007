import QueryFilter.Filter.Equivalence

set_option relaxedAutoImplicit false
set_option autoImplicit false

/-!
# When filters are equal

Whether two filters are equal is found out by sorting: their terms with a keyword are put in the
order of terms and compared one by one. That order is total and tells all terms apart, so that what
is compared is the collection of these terms, each of them as often as it occurs.

## Main definitions

* `QueryFilter.Filter.Reorders` — the same terms in another order, except that the bare ones keep
  theirs.

## Main results

* `QueryFilter.Term.mergeSort_eq_iff_perm` — lists are equal once they are sorted exactly when they
  are permutations of each other.
* `QueryFilter.Filter.reorders_iff` — reordering, told from the two kinds of terms.
* `QueryFilter.Filter.equals_iff_reorders` — equal filters are those that reorder each other.
* `QueryFilter.Filter.equals_iff_perm_and_equivalence` — equality in full.
-/

namespace QueryFilter

namespace Relation

/-- Relations are told apart by their place in the order. -/
theorem eq_of_rank_eq {r s : Relation} (h : r.rank = s.rank) : r = s := by
  cases r <;> cases s <;> first | rfl | contradiction

instance : Std.TransOrd Relation :=
  inferInstanceAs (Std.TransCmp (compareOn rank))

instance : Std.LawfulEqOrd Relation where
  compare_self := Nat.compare_eq_eq.2 rfl
  eq_of_compare h := eq_of_rank_eq (Nat.compare_eq_eq.1 h)

end Relation

namespace Term

/-! ## The order of terms -/

instance : Std.TransCmp compare :=
  inferInstanceAs
    (Std.TransCmp (compareLex (compareOn keyword) (compareLex (compareOn relation)
      (compareOn value))))

/-- The order tells all terms apart. -/
theorem eq_of_compare_eq {a b : Term} (h : a.compare b = .eq) : a = b := by
  obtain ⟨hkeyword, hrest⟩ := Ordering.then_eq_eq.1 h
  obtain ⟨hrelation, hvalue⟩ := Ordering.then_eq_eq.1 hrest
  ext1
  · exact Std.LawfulEqOrd.eq_of_compare hkeyword
  · exact Std.LawfulEqOrd.eq_of_compare hrelation
  · exact Std.LawfulEqOrd.eq_of_compare hvalue

/-- Whether one term may stand before another in a sorted list. -/
def le (a b : Term) : Bool :=
  (a.compare b).isLE

theorem le_trans (a b c : Term) (hab : le a b = true) (hbc : le b c = true) : le a c = true :=
  Std.TransCmp.isLE_trans hab hbc

/-- Of two terms, one may stand before the other. -/
theorem le_total (a b : Term) : (le a b || le b a) = true := by
  have hswap : b.compare a = (a.compare b).swap := Std.OrientedCmp.eq_swap
  rw [le, le, hswap]
  cases a.compare b <;> rfl

/-- Two terms that may each stand before the other are the same term. -/
theorem le_antisymm (a b : Term) (hab : le a b = true) (hba : le b a = true) : a = b :=
  eq_of_compare_eq (Std.OrientedCmp.isLE_antisymm hab hba)

/-- **Sorting shows whether two lists hold the same terms**, each as often as the other does. -/
theorem mergeSort_eq_iff_perm (terms others : List Term) :
    terms.mergeSort le = others.mergeSort le ↔ terms.Perm others := by
  constructor
  · intro h
    have hsorted := List.mergeSort_perm terms le
    rw [h] at hsorted
    exact hsorted.symm.trans (List.mergeSort_perm others le)
  · intro h
    have hperm : (terms.mergeSort le).Perm (others.mergeSort le) :=
      (List.mergeSort_perm terms le).trans (h.trans (List.mergeSort_perm others le).symm)
    exact List.Perm.eq_of_pairwise (fun a b _ _ => le_antisymm a b)
      (List.pairwise_mergeSort le_trans le_total terms)
      (List.pairwise_mergeSort le_trans le_total others) hperm

end Term

namespace Filter

/-! ## Reordered filters -/

/-- The terms of a filter are those of another one in some order, in which the bare terms stand as
they stand there. -/
def Reorders (filter other : Filter) : Prop :=
  filter.terms.Perm other.terms ∧ filter.bareTerms = other.bareTerms

/-- Whatever order the terms have, it can be had from itself, undone, and followed by another. -/
theorem reorders_equivalence : Equivalence Reorders where
  refl _ := ⟨List.Perm.refl _, rfl⟩
  symm h := ⟨h.1.symm, h.2.symm⟩
  trans h k := ⟨h.1.trans k.1, h.2.trans k.2⟩

/-- The bare terms and the terms with a keyword are all the terms. -/
theorem bareTerms_append_keywordTerms_perm (filter : Filter) :
    (filter.bareTerms ++ filter.keywordTerms).Perm filter.terms :=
  List.filter_append_perm Term.isBare filter.terms

/-- One filter reorders another when the bare terms of both are the same list and the terms with a
keyword the same collection. -/
theorem reorders_iff (filter other : Filter) :
    filter.Reorders other ↔
      filter.bareTerms = other.bareTerms ∧ filter.keywordTerms.Perm other.keywordTerms := by
  constructor
  · rintro ⟨hall, hbare⟩
    exact ⟨hbare, hall.filter _⟩
  · rintro ⟨hbare, hkeyword⟩
    refine ⟨?_, hbare⟩
    have hparts : (filter.bareTerms ++ filter.keywordTerms).Perm
        (other.bareTerms ++ other.keywordTerms) := by
      rw [hbare]
      exact hkeyword.append_left other.bareTerms
    exact (bareTerms_append_keywordTerms_perm filter).symm.trans
      (hparts.trans (bareTerms_append_keywordTerms_perm other))

/-! ## Equal filters -/

/-- **Two filters are equal exactly when one reorders the other.** Their lengths, which are compared
first, are the same then. -/
theorem equals_iff_reorders (filter other : Filter) :
    filter.equals other = true ↔ filter.Reorders other := by
  have hsort : filter.sortedKeywordTerms = other.sortedKeywordTerms
      ↔ filter.keywordTerms.Perm other.keywordTerms :=
    Term.mergeSort_eq_iff_perm filter.keywordTerms other.keywordTerms
  rw [equals, Bool.and_eq_true, Bool.and_eq_true, beq_iff_eq, beq_iff_eq, beq_iff_eq, hsort]
  constructor
  · rintro ⟨⟨-, hbare⟩, hkeyword⟩
    exact (reorders_iff filter other).2 ⟨hbare, hkeyword⟩
  · intro h
    obtain ⟨hbare, hkeyword⟩ := (reorders_iff filter other).1 h
    exact ⟨⟨h.1.length_eq, hbare⟩, hkeyword⟩

/-- Reordered filters are equal to the same filters. -/
theorem Reorders.equals_eq {filter filter' other other' : Filter} (h : filter'.Reorders filter)
    (k : other'.Reorders other) : filter'.equals other' = filter.equals other := by
  rw [Bool.eq_iff_iff, equals_iff_reorders, equals_iff_reorders]
  constructor
  · intro hequal
    exact reorders_equivalence.trans (reorders_equivalence.symm h)
      (reorders_equivalence.trans hequal k)
  · intro hequal
    exact reorders_equivalence.trans h
      (reorders_equivalence.trans hequal (reorders_equivalence.symm k))

/-- **Equality of filters.** Two filters are equal if and only if their bare terms are the same list
and their terms with a keyword are permutations of each other. The identity of a saved filter plays
no part, nor does the order of the terms as long as the bare ones keep theirs; and equality is an
equivalence. -/
theorem equals_iff_perm_and_equivalence (filter other : Filter) :
    (filter.equals other = true ↔
      filter.bareTerms = other.bareTerms ∧ filter.keywordTerms.Perm other.keywordTerms) ∧
    (∀ filter' other' : Filter, filter'.terms = filter.terms → other'.terms = other.terms →
      filter'.equals other' = filter.equals other) ∧
    (∀ filter' other' : Filter, filter'.Reorders filter → other'.Reorders other →
      filter'.equals other' = filter.equals other) ∧
    Equivalence fun a b : Filter => a.equals b = true := by
  have hsame : ∀ {a b : Filter}, a.terms = b.terms → a.Reorders b := by
    intro a b h
    exact ⟨List.Perm.of_eq h, by rw [bareTerms, bareTerms, h]⟩
  refine ⟨?_, ?_, ?_, ?_⟩
  · rw [equals_iff_reorders, reorders_iff]
  · intro filter' other' h k
    exact (hsame h).equals_eq (hsame k)
  · intro filter' other' h k
    exact h.equals_eq k
  · simp only [equals_iff_reorders]
    exact reorders_equivalence

end Filter

end QueryFilter
