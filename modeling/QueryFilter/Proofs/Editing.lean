import QueryFilter.Filter.Edit
import QueryFilter.Proofs.Setting

set_option relaxedAutoImplicit false
set_option autoImplicit false

/-!
# What an edit does

Every edit comes down to a few changes of a list of terms. This file says what each of them leaves
and what it puts in, as a collection of terms, and draws the conclusion for the edits: a term of an
edited filter was there before or has been written by the edit.

## Main definitions

* `QueryFilter.Edit.Writes` — the terms that an edit may write.

## Main results

* `QueryFilter.Term.upsert_perm`, `QueryFilter.Term.writeSort_perm` — what a change leaves and what
  it puts in.
* `QueryFilter.Filter.mem_terms_apply` — where the terms of an edited filter come from.
* `QueryFilter.Filter.forall_mem_terms_apply` — what holds of all terms holds of them after an edit
  that writes only terms of which it holds.
-/

namespace QueryFilter

namespace Term

/-! ## Changes of a list -/

/-- The terms on both sides of the first one with a keyword are those that are left without it. -/
theorem before_append_after (keyword : String) (terms : List Term) :
    before keyword terms ++ after keyword terms = terms.eraseP (·.hasKeyword keyword) := by
  induction terms with
  | nil => rfl
  | cons term terms ih =>
    unfold before after at ih ⊢
    cases hterm : term.hasKeyword keyword with
    | true => simp [hterm]
    | false => simp [hterm, ih]

/-- A change puts in one term and leaves all others but the first one with the keyword. -/
theorem upsert_perm (keyword : String) (change : Term → Term) (new : Term) (terms : List Term) :
    (upsert keyword change new terms).Perm
      (((terms.find? (·.hasKeyword keyword)).map change).getD new
        :: terms.eraseP (·.hasKeyword keyword)) := by
  rw [upsert_eq, ← before_append_after]
  exact List.perm_middle

/-- A term that is found after a change was there before, or is the one put in. -/
theorem mem_of_mem_upsert {keyword : String} {change : Term → Term} {new term : Term}
    {terms : List Term} (h : term ∈ upsert keyword change new terms) :
    term ∈ terms ∨ term = ((terms.find? (·.hasKeyword keyword)).map change).getD new := by
  rcases List.mem_cons.1 ((upsert_perm keyword change new terms).subset h) with rfl | hrest
  · exact .inr rfl
  · exact .inl (List.mem_of_mem_eraseP hrest)

/-- A sort term is put in, and all terms are left that do not sort. -/
theorem writeSort_perm (new : Term) (terms : List Term) :
    (writeSort new terms).Perm (new :: terms.filter (!·.isSort)) := by
  induction terms with
  | nil => rfl
  | cons term terms ih =>
    rw [writeSort]
    cases hterm : term.isSort with
    | true => simp [hterm]
    | false =>
      have hkept : (term :: terms).filter (!·.isSort) = term :: terms.filter (!·.isSort) :=
        List.filter_cons_of_pos (by simp [hterm])
      rw [hkept]
      exact (ih.cons term).trans (List.Perm.swap new term _)

/-- A term that is found after a sort term is written was there before, or is the sort term. -/
theorem mem_of_mem_writeSort {new term : Term} {terms : List Term}
    (h : term ∈ writeSort new terms) : term ∈ terms ∨ term = new := by
  rcases List.mem_cons.1 ((writeSort_perm new terms).subset h) with rfl | hrest
  · exact .inr rfl
  · exact .inl (List.mem_filter.1 hrest).1

/-- Taking out the first term with a keyword leaves alone what a test selects among the others. -/
theorem filter_eraseP {keyword : String} {test : Term → Bool}
    (hold : ∀ term, term.hasKeyword keyword = true → test term = false) (terms : List Term) :
    (terms.eraseP (·.hasKeyword keyword)).filter test = terms.filter test := by
  induction terms with
  | nil => rfl
  | cons term terms ih =>
    rw [List.eraseP_cons]
    cases hterm : term.hasKeyword keyword with
    | true => simp [hold term hterm]
    | false => simp [List.filter_cons, ih]

/-! ## Terms that are taken over -/

/-- A term comes from a term with a keyword that is taken over: it is that one, or says the same of
its keyword, with equality where that one has no relation. -/
def ComesFrom (source term : Term) : Prop :=
  ∃ keyword, source.keyword = some keyword ∧
    (term = source ∨ term = keyed keyword (source.relation.getD .equal) source.value)

end Term

namespace Filter

/-- A term that is found after a single term is taken over was there before, or comes from that one.
-/
theorem mem_of_mem_mergeTerm {source term : Term} {terms : List Term}
    (h : term ∈ mergeTerm terms source) : term ∈ terms ∨ source.ComesFrom term := by
  unfold mergeTerm at h
  cases hkeyword : source.keyword with
  | none =>
    rw [hkeyword] at h
    exact .inl h
  | some keyword =>
    rw [hkeyword] at h
    rcases Term.mem_of_mem_upsert h with hterm | rfl
    · exact .inl hterm
    · right
      refine ⟨keyword, hkeyword, ?_⟩
      cases hfind : terms.find? (·.hasKeyword keyword) with
      | none => exact .inl rfl
      | some old =>
        have hold : old.hasKeyword keyword = true := by simpa using List.find?_some hfind
        exact .inr (Term.replace_eq_keyed hold _ _)

/-- A term that is found after a list of terms is taken over was there before, or comes from one of
them. -/
theorem mem_of_mem_foldl_mergeTerm {sources : List Term} {term : Term} {terms : List Term}
    (h : term ∈ sources.foldl mergeTerm terms) :
    term ∈ terms ∨ ∃ source ∈ sources, source.ComesFrom term := by
  induction sources generalizing terms with
  | nil => exact .inl h
  | cons source sources ih =>
    rcases ih h with hterm | ⟨other, hother, hfrom⟩
    · rcases mem_of_mem_mergeTerm hterm with hterm | hfrom
      · exact .inl hterm
      · exact .inr ⟨source, List.mem_cons_self, hfrom⟩
    · exact .inr ⟨other, List.mem_cons_of_mem _ hother, hfrom⟩

end Filter

namespace Edit

/-- The terms that an edit of a filter may write. -/
def Writes (filter : Filter) (term : Term) : Edit → Prop
  | .set keyword value relation =>
    Keyword.isValid keyword = true ∧ term = .keyed keyword relation value.stored
  | .delete _ => False
  | .setSortBy field => ∃ order : SortOrder, term = .keyed order.keyword .equal (quoteValue field)
  | .setSortOrder order =>
    ∃ field, filter.sortBy? = some field ∧ term = .keyed order.keyword .equal (quoteValue field)
  | .mergeKeywords other => ∃ source ∈ other.terms, source.ComesFrom term
  | .next _ | .previous _ | .firstPage =>
    ∃ n, term = .keyed Keyword.first .equal (Text.Decimal.ofInt64 n)
  | .allRows =>
    ∃ keyword n, (keyword = Keyword.first ∨ keyword = Keyword.rows) ∧
      term = .keyed keyword .equal (Text.Decimal.ofInt64 n)
  | .simple => False

end Edit

namespace Filter

/-! ## Where the terms of an edited filter come from -/

/-- A term that is found after a keyword is set was there before, or is made for that keyword. -/
theorem mem_terms_set {filter : Filter} {keyword : String} {value : KeywordValue}
    {relation : Relation} {term : Term} (h : term ∈ (filter.set keyword value relation).terms) :
    term ∈ filter.terms ∨
      Keyword.isValid keyword = true ∧ term = .keyed keyword relation value.stored := by
  unfold set at h
  split at h
  · next hk =>
    rcases Term.mem_of_mem_upsert h with hterm | rfl
    · exact .inl hterm
    · exact .inr ⟨hk, Term.getD_find?_map_replace keyword relation value.stored filter.terms⟩
  · exact .inl h

/-- A term that is found after a number is set was there before, or holds the number. -/
theorem mem_terms_setValue_number {filter : Filter} {keyword : String} {n : Int64} {term : Term}
    (h : term ∈ (filter.setValue keyword (.number n)).terms) :
    term ∈ filter.terms ∨ term = .keyed keyword .equal (Text.Decimal.ofInt64 n) := by
  rcases mem_terms_set h with hterm | ⟨-, hterm⟩
  · exact .inl hterm
  · exact .inr hterm

/-- Another order changes nothing in a filter that does not sort. -/
theorem setSortOrder_of_none {filter : Filter} (h : filter.sortBy? = none) (order : SortOrder) :
    filter.setSortOrder order = filter := by
  rw [setSortOrder, h]

/-- Another order is written with the present field. -/
theorem setSortOrder_of_some {filter : Filter} {field : String} (h : filter.sortBy? = some field)
    (order : SortOrder) : filter.setSortOrder order = filter.writeSort order field := by
  rw [setSortOrder, h]

/-- **Where the terms of an edited filter come from**: each of them was there before, or the edit
has written it. -/
theorem mem_terms_apply {filter : Filter} {edit : Edit} {term : Term}
    (h : term ∈ (filter.apply edit).terms) : term ∈ filter.terms ∨ edit.Writes filter term := by
  cases edit with
  | set keyword value relation => exact mem_terms_set h
  | delete keyword => exact .inl (List.mem_of_mem_eraseP h)
  | setSortBy field =>
    rcases Term.mem_of_mem_writeSort h with hterm | hterm
    · exact .inl hterm
    · exact .inr ⟨_, hterm⟩
  | setSortOrder order =>
    rw [apply] at h
    cases hfield : filter.sortBy? with
    | none =>
      rw [setSortOrder_of_none hfield] at h
      exact .inl h
    | some field =>
      rw [setSortOrder_of_some hfield] at h
      rcases Term.mem_of_mem_writeSort h with hterm | hterm
      · exact .inl hterm
      · exact .inr ⟨field, hfield, hterm⟩
  | mergeKeywords other => exact mem_of_mem_foldl_mergeTerm h
  | next _ | previous _ | firstPage =>
    exact (mem_terms_setValue_number h).imp_right fun hterm => ⟨_, hterm⟩
  | allRows =>
    -- the number of rows is set last
    rcases mem_terms_setValue_number h with hfirst | hterm
    · exact (mem_terms_setValue_number hfirst).imp_right fun hterm => ⟨_, _, .inl rfl, hterm⟩
    · exact .inr ⟨_, _, .inr rfl, hterm⟩
  | simple => exact .inl (List.mem_filter.1 h).1

/-- What holds of all terms of a filter holds of them after an edit, when it holds of the terms that
the edit writes. -/
theorem forall_mem_terms_apply {P : Term → Prop} {filter : Filter} {edit : Edit}
    (h : ∀ term ∈ filter.terms, P term) (hwrites : ∀ term, edit.Writes filter term → P term) :
    ∀ term ∈ (filter.apply edit).terms, P term := by
  intro term hterm
  rcases mem_terms_apply hterm with hold | hnew
  · exact h term hold
  · exact hwrites term hnew

end Filter

end QueryFilter
