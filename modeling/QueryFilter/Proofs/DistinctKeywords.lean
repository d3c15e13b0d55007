import QueryFilter.Proofs.Editing

set_option relaxedAutoImplicit false
set_option autoImplicit false

/-!
# Lists with distinct keywords

The first term with a keyword depends on the order of the terms, and so does what is changed where
it stands. When no keyword occurs twice it is the only one, and the order does not matter any more:
what is found is the same in every permutation of a list, and what comes of a change is a
permutation of what comes of it there.

## Main definitions

* `QueryFilter.Term.DistinctKeywords` — lists in which no keyword occurs twice.

## Main results

* `QueryFilter.Term.find?_eq_of_perm` — a term that is found is found in every order.
* `QueryFilter.Term.keywords_upsert` — a change adds a keyword at most once.
* `QueryFilter.Term.upsert_upsert_perm` — changes for two keywords can be made in either order.
* `QueryFilter.Filter.foldl_mergeTerm_perm` — terms can be taken over in any order.
-/

namespace QueryFilter

namespace Term

/-- No two terms of a list have the same keyword. -/
def DistinctKeywords (terms : List Term) : Prop :=
  (terms.filterMap keyword).Nodup

instance (terms : List Term) : Decidable (DistinctKeywords terms) :=
  inferInstanceAs (Decidable (terms.filterMap keyword).Nodup)

/-! ## Finding terms -/

/-- A test that at most one term passes finds the same term in every order. -/
theorem find?_eq_of_perm {test : Term → Bool} {terms others : List Term}
    (hperm : terms.Perm others)
    (hone : terms.Pairwise fun a b => test a = true → test b = true → False) :
    terms.find? test = others.find? test := by
  have hpasses : (terms.filter test).Perm (others.filter test) := hperm.filter test
  have hpair := hone.filter test
  rw [← List.head?_filter, ← List.head?_filter]
  match hselected : terms.filter test with
  | [] =>
    rw [hselected, List.nil_perm] at hpasses
    rw [hpasses]
  | [first] =>
    rw [hselected, List.singleton_perm] at hpasses
    rw [← hpasses]
  | first :: second :: rest =>
    -- two terms would pass the test
    have hfirst : first ∈ terms.filter test := by simp [hselected]
    have hsecond : second ∈ terms.filter test := by simp [hselected]
    rw [hselected] at hpair
    have hfalse := (List.pairwise_cons.1 hpair).1 second List.mem_cons_self
    exact (hfalse (List.mem_filter.1 hfirst).2 (List.mem_filter.1 hsecond).2).elim

namespace DistinctKeywords

/-- At most one term has a given keyword. -/
theorem pairwise {terms : List Term} (h : DistinctKeywords terms) (keyword : String) :
    terms.Pairwise fun a b =>
      a.hasKeyword keyword = true → b.hasKeyword keyword = true → False := by
  refine (List.pairwise_filterMap.1 h).imp ?_
  intro a b hne ha hb
  exact hne keyword (hasKeyword_iff.1 ha) keyword (hasKeyword_iff.1 hb) rfl

/-- Keywords are distinct in every order. -/
theorem of_perm {terms others : List Term} (h : DistinctKeywords terms)
    (hperm : terms.Perm others) : DistinctKeywords others :=
  (hperm.filterMap keyword).nodup_iff.1 h

/-- Keywords stay distinct when terms are taken out. -/
theorem of_sublist {terms others : List Term} (h : DistinctKeywords terms)
    (hsub : others.Sublist terms) : DistinctKeywords others :=
  h.sublist (hsub.filterMap keyword)

end DistinctKeywords

/-! ## Changes -/

section Change

variable {keyword other : String} {change change' : Term → Term} {new new' : Term}

/-- A change adds its keyword at the end if it was not there, and leaves the others. -/
theorem keywords_upsert (hnew : new.keyword = some keyword)
    (hchange : ∀ term, (change term).keyword = term.keyword) (terms : List Term) :
    (upsert keyword change new terms).filterMap Term.keyword
      = if keyword ∈ terms.filterMap Term.keyword then terms.filterMap Term.keyword
        else terms.filterMap Term.keyword ++ [keyword] := by
  induction terms with
  | nil => simp [upsert, hnew]
  | cons term terms ih =>
    rw [upsert]
    split
    · next hterm => simp [hchange, hasKeyword_iff.1 hterm]
    · next hterm =>
      cases hkeyword : term.keyword with
      | none => simp [hkeyword, ih]
      | some present =>
        have hne : keyword ≠ present := by
          rintro rfl
          exact hterm (hasKeyword_iff.2 hkeyword)
        rw [List.filterMap_cons_some hkeyword, List.filterMap_cons_some hkeyword, ih]
        by_cases hmem : keyword ∈ terms.filterMap Term.keyword
        · rw [if_pos hmem, if_pos (List.mem_cons_of_mem present hmem)]
        · rw [if_neg hmem, if_neg (by simp [hne, hmem])]
          rfl

/-- Keywords stay distinct under a change. -/
theorem DistinctKeywords.upsert {terms : List Term} (h : DistinctKeywords terms)
    (hnew : new.keyword = some keyword)
    (hchange : ∀ term, (change term).keyword = term.keyword) :
    DistinctKeywords (upsert keyword change new terms) := by
  unfold DistinctKeywords
  rw [keywords_upsert hnew hchange]
  split
  · exact h
  · next hmem =>
    refine List.nodup_append.2 ⟨h, by simp, ?_⟩
    rintro present hpresent _ hadded rfl
    rw [List.mem_singleton.1 hadded] at hpresent
    exact hmem hpresent

/-- A change puts in the same term and leaves the same ones in every order. -/
theorem upsert_perm_of_perm {terms others : List Term} (hperm : terms.Perm others)
    (h : DistinctKeywords terms) :
    (upsert keyword change new terms).Perm (upsert keyword change new others) := by
  have hfind := find?_eq_of_perm hperm (h.pairwise keyword)
  have hrest := hperm.eraseP _ (h.pairwise keyword)
  refine (upsert_perm keyword change new terms).trans ?_
  rw [hfind]
  exact (hrest.cons _).trans (upsert_perm keyword change new others).symm

/-- A term that has one keyword does not have another one. -/
theorem hasKeyword_eq_false_of_ne {term : Term} (h : term.hasKeyword keyword = true)
    (hne : keyword ≠ other) : term.hasKeyword other = false := by
  simp [hasKeyword, hasKeyword_iff.1 h, hne]

/-- A change for a keyword leaves alone what is found for another one. -/
theorem find?_upsert_of_ne (hne : keyword ≠ other) (hnew : new.keyword = some keyword)
    (hchange : ∀ term, (change term).keyword = term.keyword) (terms : List Term) :
    (upsert keyword change new terms).find? (·.hasKeyword other)
      = terms.find? (·.hasKeyword other) := by
  have hkept : (upsert keyword change new terms).filter (·.hasKeyword other)
      = terms.filter (·.hasKeyword other) := by
    refine filter_upsert ?_ ?_ ?_ terms
    · exact hasKeyword_eq_false_of_ne (hasKeyword_iff.2 hnew) hne
    · intro term hterm
      exact hasKeyword_eq_false_of_ne hterm hne
    · intro term hterm
      apply hasKeyword_eq_false_of_ne _ hne
      rwa [hasKeyword, hchange]
  rw [← List.head?_filter, ← List.head?_filter, hkept]

/-- Taking out a term with a keyword leaves alone what is found for another one. -/
theorem find?_eraseP_of_ne (hne : keyword ≠ other) (terms : List Term) :
    (terms.eraseP (·.hasKeyword keyword)).find? (·.hasKeyword other)
      = terms.find? (·.hasKeyword other) := by
  rw [← List.head?_filter, ← List.head?_filter,
    filter_eraseP fun term hterm => hasKeyword_eq_false_of_ne hterm hne]

/-- Taking out a term with a keyword and a change for another one can be done in either order. -/
theorem eraseP_upsert (hne : keyword ≠ other) (hnew : new.keyword = some keyword)
    (hchange : ∀ term, (change term).keyword = term.keyword) (terms : List Term) :
    (upsert keyword change new terms).eraseP (·.hasKeyword other)
      = upsert keyword change new (terms.eraseP (·.hasKeyword other)) := by
  induction terms with
  | nil =>
    have hlacks := hasKeyword_eq_false_of_ne (hasKeyword_iff.2 hnew) hne
    simp [Term.upsert, hlacks]
  | cons term terms ih =>
    cases hkeyword : term.hasKeyword keyword with
    | true =>
      have hlacks := hasKeyword_eq_false_of_ne hkeyword hne
      have hchanged : (change term).hasKeyword other = false := by
        rwa [hasKeyword, hchange]
      simp [Term.upsert, hkeyword, hlacks, hchanged]
    | false =>
      cases hother : term.hasKeyword other with
      | true => simp [Term.upsert, hkeyword, hother]
      | false => simp [Term.upsert, hkeyword, hother, ih]

/-- The first terms with two different keywords can be taken out in either order. -/
theorem eraseP_eraseP_comm (hne : keyword ≠ other) (terms : List Term) :
    (terms.eraseP (·.hasKeyword keyword)).eraseP (·.hasKeyword other)
      = (terms.eraseP (·.hasKeyword other)).eraseP (·.hasKeyword keyword) := by
  apply List.eraseP_comm
  intro term _
  cases hkeyword : term.hasKeyword keyword with
  | true =>
    right
    simp [hasKeyword_eq_false_of_ne hkeyword hne]
  | false =>
    left
    simp

/-- Two changes for different keywords put in one term each and leave all others but the first ones
with these keywords. -/
theorem upsert_upsert_perm_cons (hne : keyword ≠ other) (hnew : new.keyword = some keyword)
    (hchange : ∀ term, (change term).keyword = term.keyword) (terms : List Term) :
    (upsert other change' new' (upsert keyword change new terms)).Perm
      (((terms.find? (·.hasKeyword other)).map change').getD new'
        :: ((terms.find? (·.hasKeyword keyword)).map change).getD new
        :: (terms.eraseP (·.hasKeyword other)).eraseP (·.hasKeyword keyword)) := by
  have houter := upsert_perm other change' new' (upsert keyword change new terms)
  have hinner := upsert_perm keyword change new (terms.eraseP (·.hasKeyword other))
  rw [find?_upsert_of_ne hne hnew hchange, eraseP_upsert hne hnew hchange] at houter
  rw [find?_eraseP_of_ne hne.symm] at hinner
  exact houter.trans (hinner.cons _)

/-- **Changes for two keywords can be made in either order**, apart from the order of what they put
at the end. -/
theorem upsert_upsert_perm (hne : keyword ≠ other) (hnew : new.keyword = some keyword)
    (hchange : ∀ term, (change term).keyword = term.keyword) (hnew' : new'.keyword = some other)
    (hchange' : ∀ term, (change' term).keyword = term.keyword) (terms : List Term) :
    (upsert other change' new' (upsert keyword change new terms)).Perm
      (upsert keyword change new (upsert other change' new' terms)) := by
  refine (upsert_upsert_perm_cons hne hnew hchange terms).trans ?_
  rw [eraseP_eraseP_comm hne.symm]
  exact (List.Perm.swap _ _ _).trans (upsert_upsert_perm_cons hne.symm hnew' hchange' terms).symm

end Change

end Term

namespace Filter

open Term (DistinctKeywords)

/-! ## Taking over terms -/

/-- A term with a keyword is taken over by a change for that keyword. -/
theorem mergeTerm_of_some {source : Term} {keyword : String}
    (h : source.keyword = some keyword) (terms : List Term) :
    mergeTerm terms source
      = Term.upsert keyword (·.replace (source.relation.getD .equal) source.value) source terms := by
  rw [mergeTerm, h]

/-- A bare term is not taken over. -/
theorem mergeTerm_of_none {source : Term} (h : source.keyword = none) (terms : List Term) :
    mergeTerm terms source = terms := by
  rw [mergeTerm, h]

/-- Keywords stay distinct when a term is taken over. -/
theorem distinctKeywords_mergeTerm {terms : List Term} (h : DistinctKeywords terms)
    (source : Term) : DistinctKeywords (mergeTerm terms source) := by
  cases hkeyword : source.keyword with
  | none => rwa [mergeTerm_of_none hkeyword]
  | some keyword =>
    rw [mergeTerm_of_some hkeyword]
    exact h.upsert hkeyword fun _ => rfl

/-- A term is taken over in the same way in every order. -/
theorem mergeTerm_perm_of_perm {terms others : List Term} (hperm : terms.Perm others)
    (h : DistinctKeywords terms) (source : Term) :
    (mergeTerm terms source).Perm (mergeTerm others source) := by
  cases hkeyword : source.keyword with
  | none => rwa [mergeTerm_of_none hkeyword, mergeTerm_of_none hkeyword]
  | some keyword =>
    rw [mergeTerm_of_some hkeyword, mergeTerm_of_some hkeyword]
    exact Term.upsert_perm_of_perm hperm h

/-- Two terms without a common keyword can be taken over in either order. -/
theorem mergeTerm_mergeTerm_perm {a b : Term}
    (hne : ∀ keyword, a.keyword = some keyword → b.keyword ≠ some keyword) (terms : List Term) :
    (mergeTerm (mergeTerm terms a) b).Perm (mergeTerm (mergeTerm terms b) a) := by
  cases ha : a.keyword with
  | none => rw [mergeTerm_of_none ha, mergeTerm_of_none ha]
  | some keyword =>
    cases hb : b.keyword with
    | none => rw [mergeTerm_of_none hb, mergeTerm_of_none hb]
    | some other =>
      have hother : keyword ≠ other := by
        rintro rfl
        exact hne keyword ha hb
      rw [mergeTerm_of_some ha, mergeTerm_of_some ha, mergeTerm_of_some hb, mergeTerm_of_some hb]
      refine Term.upsert_upsert_perm hother ha ?_ hb ?_ terms
      · exact fun _ => rfl
      · exact fun _ => rfl

/-- The same terms are taken over in the same way in every order of the terms that are there. -/
theorem foldl_mergeTerm_perm_of_perm (sources : List Term) {terms others : List Term}
    (hperm : terms.Perm others) (h : DistinctKeywords terms) :
    (sources.foldl mergeTerm terms).Perm (sources.foldl mergeTerm others) := by
  induction sources generalizing terms others with
  | nil => exact hperm
  | cons source sources ih =>
    exact ih (mergeTerm_perm_of_perm hperm h source) (distinctKeywords_mergeTerm h source)

/-- **Terms with distinct keywords can be taken over in any order.**

**Proof sketch.** Induction on the permutation of the terms that are taken over. Two neighbours that
change places have no common keyword. -/
theorem foldl_mergeTerm_perm {sources sources' : List Term} (hsources : sources.Perm sources')
    (hdistinct : DistinctKeywords sources) {terms others : List Term}
    (hperm : terms.Perm others) (h : DistinctKeywords terms) :
    (sources.foldl mergeTerm terms).Perm (sources'.foldl mergeTerm others) := by
  induction hsources generalizing terms others with
  | nil => exact hperm
  | cons source _ ih =>
    exact ih (hdistinct.of_sublist (List.sublist_cons_self _ _))
      (mergeTerm_perm_of_perm hperm h source) (distinctKeywords_mergeTerm h source)
  | swap a b rest =>
    -- `b` comes before `a` on the left and after it on the right
    have hne : ∀ keyword, b.keyword = some keyword → a.keyword ≠ some keyword := by
      intro keyword hb ha
      have hpair := hdistinct.pairwise keyword
      exact (List.pairwise_cons.1 hpair).1 a List.mem_cons_self (Term.hasKeyword_iff.2 hb)
        (Term.hasKeyword_iff.2 ha)
    have hboth : (mergeTerm (mergeTerm terms b) a).Perm (mergeTerm (mergeTerm others a) b) :=
      (mergeTerm_mergeTerm_perm hne terms).trans
        (mergeTerm_perm_of_perm (mergeTerm_perm_of_perm hperm h a)
          (distinctKeywords_mergeTerm h a) b)
    exact foldl_mergeTerm_perm_of_perm rest hboth
      (distinctKeywords_mergeTerm (distinctKeywords_mergeTerm h b) a)
  | trans hfirst _ ihFirst ihSecond =>
    exact (ihFirst hdistinct hperm h).trans
      (ihSecond (hdistinct.of_perm hfirst) (List.Perm.refl others) (h.of_perm hperm))

end Filter

end QueryFilter
