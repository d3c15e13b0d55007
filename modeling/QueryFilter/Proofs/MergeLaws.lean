import QueryFilter.Proofs.Commuting
import QueryFilter.Proofs.Merging
import QueryFilter.Proofs.Reachable

set_option relaxedAutoImplicit false
set_option autoImplicit false

/-!
# The laws of taking over keywords

Taking over a term with a keyword is setting the keyword, though neither is the keyword checked nor the
value quoted: the terms of reachable filters need neither. What was taken over before for the same keyword
is overwritten, and terms for other keywords are passed over. So a filter that is merged a second time
changes nothing any more, and two filters can be merged one after the other or into each other first, if
no keyword occurs twice in the first of the two.

## Main definitions

* `QueryFilter.Edit.ofTerm?` — the edit that sets the keyword of a term to what the term says.

## Main results

* `QueryFilter.Filter.mergeTerm_mergeTerm_of_same`, `QueryFilter.Filter.mergeTerm_mergeTerm_comm` — two
  terms that are taken over.
* `QueryFilter.Filter.exists_edits_of_isSound` — taking over as a run of edits.
* `QueryFilter.Filter.foldl_mergeTerm_twice` — taking over the same terms twice.
* `QueryFilter.Filter.foldl_mergeTerm_assoc` — taking over terms into which others were taken over.
* `QueryFilter.Filter.laws_of_mergeKeywords` — the same for filters.
-/

namespace QueryFilter

/-- The edit that sets the keyword of a term to what the term says. A term that lacks a keyword or a
relation has none. -/
def Edit.ofTerm? (term : Term) : Option Edit :=
  term.keyword.bind fun keyword =>
    term.relation.map fun relation => .set keyword (.text term.value) relation

namespace Filter

open Term (DistinctKeywords)

variable {source other : Term} {keyword : String} {terms sources others : List Term}

/-! ## Keywords that are there -/

/-- A term that is taken over adds its keyword at the end if it was not there. -/
theorem keywords_mergeTerm (h : source.keyword = some keyword) (terms : List Term) :
    (mergeTerm terms source).filterMap Term.keyword
      = if keyword ∈ terms.filterMap Term.keyword then terms.filterMap Term.keyword
        else terms.filterMap Term.keyword ++ [keyword] := by
  rw [mergeTerm_of_some h]
  exact Term.keywords_upsert h (Term.keyword_replace · _ _) terms

/-- A keyword that is taken over is there. -/
theorem mem_keywords_mergeTerm_self (h : source.keyword = some keyword) (terms : List Term) :
    keyword ∈ (mergeTerm terms source).filterMap Term.keyword := by
  rw [keywords_mergeTerm h]
  split
  · next hmem => exact hmem
  · simp

/-- A keyword that is there stays when a term is taken over. -/
theorem mem_keywords_mergeTerm (h : keyword ∈ terms.filterMap Term.keyword) (source : Term) :
    keyword ∈ (mergeTerm terms source).filterMap Term.keyword := by
  cases hsource : source.keyword with
  | none => rwa [mergeTerm_of_none hsource]
  | some new =>
    rw [keywords_mergeTerm hsource]
    split
    · exact h
    · exact List.mem_append_left _ h

/-- A keyword that is there stays when terms are taken over. -/
theorem mem_keywords_foldl_mergeTerm (h : keyword ∈ terms.filterMap Term.keyword)
    (sources : List Term) : keyword ∈ (sources.foldl mergeTerm terms).filterMap Term.keyword := by
  induction sources generalizing terms with
  | nil => exact h
  | cons source sources ih => exact ih (mem_keywords_mergeTerm h source)

/-! ## Two terms -/

/-- Of two terms for the same keyword, the one that is taken over last counts. -/
theorem mergeTerm_mergeTerm_of_same (hsource : source.keyword = some keyword)
    (hother : other.keyword = some keyword) (hrelation : other.relation.isSome = true)
    (terms : List Term) :
    mergeTerm (mergeTerm terms source) other = mergeTerm terms other := by
  have hhas : source.hasKeyword keyword = true := Term.hasKeyword_iff.2 hsource
  rw [mergeTerm_of_some hsource, mergeTerm_of_some hother, mergeTerm_of_some hother]
  refine Term.upsert_upsert hhas ?_ ?_ ?_ terms
  · exact Term.replace_eq_of_keyword hhas hother hrelation
  · intro term hterm
    exact hterm
  · intro term _
    rfl

/-- A term whose keyword is there and one that does not have this keyword can be taken over in either
order. -/
theorem mergeTerm_mergeTerm_comm (hsource : source.keyword = some keyword)
    (hother : other.keyword ≠ some keyword) (h : keyword ∈ terms.filterMap Term.keyword) :
    mergeTerm (mergeTerm terms source) other = mergeTerm (mergeTerm terms other) source := by
  cases hkeyword : other.keyword with
  | none => rw [mergeTerm_of_none hkeyword, mergeTerm_of_none hkeyword]
  | some new =>
    have hne : keyword ≠ new := by
      rintro rfl
      exact hother hkeyword
    obtain ⟨found, hfound, hhas⟩ := List.mem_filterMap.1 h
    rw [mergeTerm_of_some hsource, mergeTerm_of_some hsource, mergeTerm_of_some hkeyword,
      mergeTerm_of_some hkeyword]
    refine Term.upsert_upsert_comm hne ?_ ?_ ⟨found, hfound, .inl (Term.hasKeyword_iff.2 hhas)⟩
    · exact fun _ => rfl
    · exact fun _ => rfl

/-! ## A term and a list of terms -/

/-- A term whose keyword is there can be taken over before or after terms that do not have it. -/
theorem foldl_mergeTerm_mergeTerm_comm (hsource : source.keyword = some keyword)
    (hlacks : ∀ term ∈ sources, term.keyword ≠ some keyword)
    (h : keyword ∈ terms.filterMap Term.keyword) :
    sources.foldl mergeTerm (mergeTerm terms source)
      = mergeTerm (sources.foldl mergeTerm terms) source := by
  induction sources generalizing terms with
  | nil => rfl
  | cons first rest ih =>
    obtain ⟨hfirst, hrest⟩ := List.forall_mem_cons.1 hlacks
    rw [List.foldl_cons, List.foldl_cons, mergeTerm_mergeTerm_comm hsource hfirst h,
      ih hrest (mem_keywords_mergeTerm h first)]

/-- Nothing is left of a term that is taken over where its keyword is, once terms are taken over of which
one has the keyword too. -/
theorem foldl_mergeTerm_mergeTerm_of_same
    (hrelations : ∀ term ∈ sources, term.keyword.isSome → term.relation.isSome)
    (hsource : source.keyword = some keyword) (hsame : ∃ term ∈ sources, term.keyword = some keyword)
    (h : keyword ∈ terms.filterMap Term.keyword) :
    sources.foldl mergeTerm (mergeTerm terms source) = sources.foldl mergeTerm terms := by
  induction sources generalizing terms with
  | nil => simp at hsame
  | cons first rest ih =>
    obtain ⟨hrelation, hrest⟩ := List.forall_mem_cons.1 hrelations
    rw [List.foldl_cons, List.foldl_cons]
    by_cases hfirst : first.keyword = some keyword
    · rw [mergeTerm_mergeTerm_of_same hsource hfirst (hrelation (by simp [hfirst]))]
    · have hlater : ∃ term ∈ rest, term.keyword = some keyword := by
        simpa [hfirst] using hsame
      rw [mergeTerm_mergeTerm_comm hsource hfirst h, ih hrest hlater (mem_keywords_mergeTerm h first)]

/-! ## Lists of terms -/

/-- **Terms that are taken over a second time change nothing.**

**Proof sketch.** Induction on the terms. The first one is taken over a second time after the others were.
If one of them has its keyword too, nothing will be left of it; otherwise it can be taken over the second
time right after the first time. -/
theorem foldl_mergeTerm_twice
    (hrelations : ∀ term ∈ sources, term.keyword.isSome → term.relation.isSome)
    (terms : List Term) :
    sources.foldl mergeTerm (sources.foldl mergeTerm terms) = sources.foldl mergeTerm terms := by
  induction sources generalizing terms with
  | nil => rfl
  | cons first rest ih =>
    obtain ⟨hrelation, hrest⟩ := List.forall_mem_cons.1 hrelations
    rw [List.foldl_cons, List.foldl_cons]
    cases hfirst : first.keyword with
    | none => rw [mergeTerm_of_none hfirst, mergeTerm_of_none hfirst, ih hrest]
    | some keyword =>
      have hthere : keyword ∈ (mergeTerm terms first).filterMap Term.keyword :=
        mem_keywords_mergeTerm_self hfirst terms
      by_cases hsame : ∃ term ∈ rest, term.keyword = some keyword
      · rw [foldl_mergeTerm_mergeTerm_of_same hrest hfirst hsame
          (mem_keywords_foldl_mergeTerm hthere rest), ih hrest]
      · have hlacks : ∀ term ∈ rest, term.keyword ≠ some keyword :=
          fun term hterm hkeyword => hsame ⟨term, hterm, hkeyword⟩
        rw [← foldl_mergeTerm_mergeTerm_comm hfirst hlacks hthere,
          mergeTerm_mergeTerm_of_same hfirst hfirst (hrelation (by simp [hfirst])), ih hrest]

/-- A term can be taken over after other terms, or into them before they are taken over, if no keyword
occurs twice among them. -/
theorem foldl_mergeTerm_mergeTerm (hdistinct : DistinctKeywords sources)
    (hrelation : source.keyword.isSome → source.relation.isSome) (terms : List Term) :
    (mergeTerm sources source).foldl mergeTerm terms
      = mergeTerm (sources.foldl mergeTerm terms) source := by
  cases hsource : source.keyword with
  | none => rw [mergeTerm_of_none hsource, mergeTerm_of_none hsource]
  | some keyword =>
    have hsome : source.relation.isSome = true := hrelation (by simp [hsource])
    rw [mergeTerm_of_some hsource sources]
    induction sources generalizing terms with
    | nil => rfl
    | cons first rest ih =>
      rw [Term.upsert, List.foldl_cons]
      split
      · next hfirst =>
        -- the term takes the place of the first one, and the rest do not have its keyword
        have hkeyword : first.keyword = some keyword := Term.hasKeyword_iff.1 hfirst
        have hlacks : ∀ term ∈ rest, term.keyword ≠ some keyword := by
          intro term hterm hsame
          have hpair := hdistinct.pairwise keyword
          exact (List.pairwise_cons.1 hpair).1 term hterm hfirst (Term.hasKeyword_iff.2 hsame)
        rw [Term.replace_eq_of_keyword hfirst hsource hsome, List.foldl_cons,
          ← foldl_mergeTerm_mergeTerm_comm hsource hlacks (mem_keywords_mergeTerm_self hkeyword terms),
          mergeTerm_mergeTerm_of_same hkeyword hsource hsome]
      · rw [List.foldl_cons, ih (hdistinct.of_sublist (List.sublist_cons_self first rest))]

/-- **Terms can be taken over after other terms, or into them before they are taken over**, if no keyword
occurs twice among those. -/
theorem foldl_mergeTerm_assoc (hdistinct : DistinctKeywords sources)
    (hrelations : ∀ term ∈ others, term.keyword.isSome → term.relation.isSome)
    (terms : List Term) :
    (others.foldl mergeTerm sources).foldl mergeTerm terms
      = others.foldl mergeTerm (sources.foldl mergeTerm terms) := by
  induction others generalizing sources with
  | nil => rfl
  | cons first rest ih =>
    obtain ⟨hrelation, hrest⟩ := List.forall_mem_cons.1 hrelations
    rw [List.foldl_cons, List.foldl_cons, ih (distinctKeywords_mergeTerm hdistinct first) hrest,
      foldl_mergeTerm_mergeTerm hdistinct hrelation]

/-! ## Taking over as setting -/

/-- Taking over a sound term is setting its keyword to what it says: the keyword is valid, and the value
is not quoted again. -/
theorem exists_edit_of_isSound (h : source.IsSound) (hbare : source.isBare = false) :
    ∃ edit, Edit.ofTerm? source = some edit ∧
      ∀ filter : Filter, { filter with terms := mergeTerm filter.terms source } = filter.apply edit := by
  rw [Term.isBare, Option.isNone_eq_false_iff] at hbare
  obtain ⟨keyword, hkeyword⟩ := Option.isSome_iff_exists.1 hbare
  obtain ⟨hvalid, hsome⟩ := h.keyword_isValid keyword hkeyword
  obtain ⟨relation, hrelation⟩ := Option.isSome_iff_exists.1 hsome
  have hstored : (KeywordValue.text source.value).stored = source.value :=
    (quoteValue_eq_self_iff source.value).2 h.value_isQuoted
  have hsource := Term.keyed_eq_self hkeyword hrelation
  refine ⟨.set keyword (.text source.value) relation, ?_, ?_⟩
  · rw [Edit.ofTerm?, hkeyword, hrelation]
    rfl
  · intro filter
    rw [apply, set, if_pos hvalid, hstored, hsource, mergeTerm_of_some hkeyword, hrelation]
    rfl

/-- Taking over sound terms with keywords is setting these, one after the other. -/
theorem exists_edits_of_isSound (h : ∀ source ∈ sources, source.IsSound)
    (hbare : ∀ source ∈ sources, source.isBare = false) :
    ∃ edits, sources.mapM Edit.ofTerm? = some edits ∧
      ∀ filter : Filter,
        { filter with terms := sources.foldl mergeTerm filter.terms } = filter.applyAll edits := by
  induction sources with
  | nil => exact ⟨[], rfl, fun _ => rfl⟩
  | cons first rest ih =>
    rw [List.forall_mem_cons] at h hbare
    obtain ⟨edit, hedit, happly⟩ := exists_edit_of_isSound h.1 hbare.1
    obtain ⟨edits, hedits, happlyAll⟩ := ih h.2 hbare.2
    refine ⟨edit :: edits, ?_, ?_⟩
    · rw [List.mapM_cons, hedit, hedits]
      rfl
    · intro filter
      rw [List.foldl_cons, applyAll, List.foldl_cons, ← happly filter]
      exact happlyAll { filter with terms := mergeTerm filter.terms first }

/-! ## Filters -/

/-- **The laws of taking over keywords**, for any filter into which the terms of a reachable filter are
taken over. This is to set the keyword of each term that has one to its value and relation, in their
order. A second time it changes nothing. If a filter without repeated keywords is merged before, the two
can be merged with each other first, with the same filter as the result. -/
theorem laws_of_mergeKeywords (filter source : Filter) {other origin : Filter}
    (horigin : Reachable origin) (hterms : other.terms = origin.terms) :
    (∃ edits, other.keywordTerms.mapM Edit.ofTerm? = some edits ∧
      filter.mergeKeywords other = filter.applyAll edits) ∧
    (filter.mergeKeywords other).mergeKeywords other = filter.mergeKeywords other ∧
    (DistinctKeywords source.terms →
      (filter.mergeKeywords source).mergeKeywords other
        = filter.mergeKeywords (source.mergeKeywords other)) := by
  have hsound : ∀ term ∈ other.terms, term.IsSound := hterms ▸ horigin.forall_isSound
  have hrelations : ∀ term ∈ other.terms, term.keyword.isSome → term.relation.isSome := by
    intro term hterm hkeyword
    obtain ⟨keyword, hsome⟩ := Option.isSome_iff_exists.1 hkeyword
    exact ((hsound term hterm).keyword_isValid keyword hsome).2
  refine ⟨?_, ?_, ?_⟩
  · have hkeyed : ∀ term ∈ other.keywordTerms, term.IsSound := by
      intro term hterm
      exact hsound term (List.mem_filter.1 hterm).1
    have hbare : ∀ term ∈ other.keywordTerms, term.isBare = false := by
      intro term hterm
      simpa using (List.mem_filter.1 hterm).2
    obtain ⟨edits, hedits, happly⟩ := exists_edits_of_isSound hkeyed hbare
    refine ⟨edits, hedits, ?_⟩
    rw [← happly filter, keywordTerms, foldl_mergeTerm_filter, mergeKeywords]
  · rw [mergeKeywords, mergeKeywords, foldl_mergeTerm_twice hrelations]
  · intro hdistinct
    rw [mergeKeywords, mergeKeywords, mergeKeywords, mergeKeywords,
      foldl_mergeTerm_assoc hdistinct hrelations]

/-- A filter in which a keyword occurs twice, and one that holds a quoted value and a word, merged into a
filter in which another keyword occurs twice. -/
theorem laws_of_mergeKeywords_two :
    let filter := ofString "name=x word name=y"
    let source := ofString "rows=5 sort=due"
    let other := ofString "sort~a first=1 and sort:\"c d\" name=z"
    let edits : List Edit :=
      [.set "sort" (.text "a") .approx, .set "first" (.text "1") .equal,
        .set "sort" (.text "\"c d\"") .tag, .set "name" (.text "z") .equal]
    Reachable other ∧ DistinctKeywords source.terms ∧
      other.keywordTerms.mapM Edit.ofTerm? = some edits ∧
      filter.mergeKeywords other = filter.applyAll edits ∧
      (filter.mergeKeywords other).mergeKeywords other = filter.mergeKeywords other ∧
      (filter.mergeKeywords source).mergeKeywords other
        = filter.mergeKeywords (source.mergeKeywords other) ∧
      (filter.mergeKeywords (source.mergeKeywords other)).terms
        = [.keyed "name" .equal "z", .bare none "word", .keyed "name" .equal "y",
          .keyed "rows" .equal "5", .keyed "sort" .tag "\"c d\"", .keyed "first" .equal "1"] := by
  intro filter source other edits
  have hreachable : Reachable other := .ofString _
  have hdistinct : DistinctKeywords source.terms := by decide +kernel +zetaReduce
  have hedits : other.keywordTerms.mapM Edit.ofTerm? = some edits := by decide +kernel +zetaReduce
  obtain ⟨⟨calls, hcalls, happly⟩, htwice, hassoc⟩ :=
    laws_of_mergeKeywords filter source hreachable rfl
  have hsame : calls = edits := Option.some.inj (hcalls.symm.trans hedits)
  rw [hsame] at happly
  exact ⟨hreachable, hdistinct, hedits, happly, htwice, hassoc hdistinct,
    by decide +kernel +zetaReduce⟩

/-- Where a keyword occurs twice in the first of two filters, its second term is not overwritten there,
and counts when the two are merged with each other first. -/
example :
    let source := ofTerms [.keyed "a" .equal "1", .keyed "a" .equal "2"]
    let other := ofTerms [.keyed "a" .equal "3"]
    ((empty.mergeKeywords source).mergeKeywords other).terms = [.keyed "a" .equal "3"] ∧
      (empty.mergeKeywords (source.mergeKeywords other)).terms = [.keyed "a" .equal "2"] := by
  decide

end Filter

end QueryFilter
