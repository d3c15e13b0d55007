import Mathlib.Data.List.Basic
import QueryFilter.Filter.Equivalence
import QueryFilter.Proofs.DistinctKeywords
import QueryFilter.Proofs.Overwriting

set_option relaxedAutoImplicit false
set_option autoImplicit false

/-!
# Taking over keywords

The terms of a filter are taken over one after the other, and each of them may overwrite what an earlier
one has written or find a term that an earlier one has put at the end. This file says what comes of it in
the end: of all terms that are taken over for one keyword only the last one counts, and it stands where
the keyword stood first, or where it would have been put first.

## Main definitions

* `QueryFilter.Term.last?` — the last term with a keyword.
* `QueryFilter.Term.overwrite` — a list in which the first term with each keyword is overwritten.
* `QueryFilter.Term.added` — the terms that come to the end of a list.

## Main results

* `QueryFilter.Filter.mergeTerm_eq_set`, `QueryFilter.Filter.mergeTerm_eq_append` — one term.
* `QueryFilter.Filter.foldl_mergeTerm_eq` — a list of terms.
* `QueryFilter.Filter.mergeKeywords_eq_overwrite_append_added` — the same for filters.
-/

namespace QueryFilter

/-- Elements can be taken out of a list before or after repetitions are. -/
theorem eraseDups_filter {α : Type} [BEq α] [LawfulBEq α] (test : α → Bool) (list : List α) :
    (list.filter test).eraseDups = list.eraseDups.filter test := by
  match list with
  | [] => rfl
  | first :: rest =>
    have ih := eraseDups_filter test (rest.filter fun other => !other == first)
    rw [List.eraseDups_cons, List.filter_cons, List.filter_cons, ← ih, List.filter_filter]
    split
    · rw [List.eraseDups_cons, List.filter_filter]
      congr 3
      funext other
      exact Bool.and_comm _ _
    · next hfirst =>
      congr 1
      apply List.filter_congr
      intro other _
      cases hother : test other with
      | false => rfl
      | true =>
        have hne : other ≠ first := by
          rintro rfl
          exact hfirst hother
        simp [hne]
  termination_by list.length
  decreasing_by
    exact Nat.lt_succ_of_le (List.length_filter_le _ rest)

namespace Term

/-! ## What counts in the end -/

/-- The last term of a list with a keyword. -/
def last? (sources : List Term) (keyword : String) : Option Term :=
  sources.reverse.find? (·.hasKeyword keyword)

/-- The last term of a list that has the keyword of a given term; the given term, if none has it. -/
def latest (sources : List Term) (term : Term) : Term :=
  (term.keyword.bind (last? sources)).getD term

/-- A list of terms in which the first term with each keyword gives way to the last one of other terms
that has it. Later terms with the keyword stay, and so do bare terms and those whose keyword the others
do not have. -/
def overwrite (sources terms : List Term) : List Term :=
  terms.mapIdx fun i term =>
    if (terms.map keyword).idxOf term.keyword = i then latest sources term else term

/-- The last of other terms for each keyword that they have and a list of terms does not, in the order
in which the keywords occur first among the others. -/
def added (sources terms : List Term) : List Term :=
  ((sources.filterMap keyword).eraseDups.filter fun new =>
    !terms.any (·.hasKeyword new)).filterMap (last? sources)

variable {source : Term} {keyword : String}

/-- A term with a keyword and a relation is the one made for them with its value. -/
theorem keyed_eq_self {relation : Relation} (hkeyword : source.keyword = some keyword)
    (hrelation : source.relation = some relation) :
    keyed keyword relation source.value = source := by
  rw [keyed, ← hkeyword, ← hrelation, ofParts_parts]

/-- A term that has the keyword of another one and is told to say what that one says becomes that one, if
it has a relation. -/
theorem replace_eq_of_keyword {term : Term} (hterm : term.hasKeyword keyword = true)
    (hkeyword : source.keyword = some keyword) (hrelation : source.relation.isSome = true) :
    term.replace (source.relation.getD .equal) source.value = source := by
  obtain ⟨relation, hsome⟩ := Option.isSome_iff_exists.1 hrelation
  rw [hsome, Option.getD_some, replace_eq_keyed hterm, keyed_eq_self hkeyword hsome]

/-- A term in front of others is not the last one with a keyword that it does not have. -/
theorem last?_cons_of_ne (h : source.keyword ≠ some keyword) (sources : List Term) :
    last? (source :: sources) keyword = last? sources keyword := by
  have hlacks : source.hasKeyword keyword = false := by simpa [hasKeyword] using h
  rw [last?, List.reverse_cons, List.find?_append, List.find?_singleton, hlacks]
  simp [last?]

/-- A bare term in front of others is not the last one with any keyword. -/
theorem last?_cons_of_bare (h : source.keyword = none) (sources : List Term) :
    last? (source :: sources) = last? sources := by
  funext keyword
  exact last?_cons_of_ne (by simp [h]) sources

/-- A term in front of others is the last one with its keyword, unless there is one among them. -/
theorem last?_cons_self (h : source.keyword = some keyword) (sources : List Term) :
    last? (source :: sources) keyword = some (latest sources source) := by
  rw [latest, h, Option.bind_some, last?, List.reverse_cons, List.find?_append,
    List.find?_singleton, hasKeyword_iff.2 h, ← last?]
  cases last? sources keyword with
  | none => rfl
  | some found => rfl

/-- A term in front of others plays no part for a term with another keyword or none. -/
theorem latest_cons_of_ne {term : Term} (h : source.keyword ≠ term.keyword) (sources : List Term) :
    latest (source :: sources) term = latest sources term := by
  rw [latest, latest]
  cases hkeyword : term.keyword with
  | none => rfl
  | some keyword =>
    rw [hkeyword] at h
    rw [Option.bind_some, Option.bind_some, last?_cons_of_ne h]

/-- A term in front of others takes the place of a term with its keyword. -/
theorem latest_cons_self {term : Term} (h : source.keyword = some keyword)
    (hterm : term.keyword = some keyword) (sources : List Term) :
    latest (source :: sources) term = latest sources source := by
  rw [latest, hterm, Option.bind_some, last?_cons_self h, Option.getD_some]

/-- The last term with the keyword of a given term has that keyword. -/
theorem keyword_latest (sources : List Term) (term : Term) :
    (latest sources term).keyword = term.keyword := by
  rw [latest]
  cases hkeyword : term.keyword with
  | none => exact hkeyword
  | some keyword =>
    rw [Option.bind_some]
    cases hlast : last? sources keyword with
    | none => exact hkeyword
    | some found => exact hasKeyword_iff.1 (by simpa using List.find?_some hlast)

/-! ## Terms that are overwritten -/

/-- A term gives way to one with the same keyword. -/
theorem map_keyword_overwrite (sources terms : List Term) :
    (overwrite sources terms).map Term.keyword = terms.map Term.keyword := by
  apply List.ext_getElem?
  intro i
  rw [overwrite, List.getElem?_map, List.getElem?_map, List.getElem?_mapIdx, Option.map_map]
  cases terms[i]? with
  | none => rfl
  | some term =>
    rw [Option.map_some, Option.map_some, Function.comp_apply, apply_ite Term.keyword,
      keyword_latest, ite_self]

/-- Nothing is overwritten by nothing. -/
theorem overwrite_nil (terms : List Term) : overwrite [] terms = terms := by
  have hlatest (term : Term) : latest [] term = term := by
    rw [latest]
    cases term.keyword with
    | none => rfl
    | some keyword => rfl
  apply List.ext_getElem?
  intro i
  simp [overwrite, hlatest]

/-- Nothing is overwritten by a bare term. -/
theorem overwrite_cons_of_bare (h : source.keyword = none) (sources terms : List Term) :
    overwrite (source :: sources) terms = overwrite sources terms := by
  simp only [overwrite, latest, last?_cons_of_bare h]

/-- The place of the first term with a keyword is where the keyword occurs first. -/
theorem idxOf_keyword {terms : List Term} {i : Nat}
    (h : terms.findIdx? (·.hasKeyword keyword) = some i) :
    (terms.map Term.keyword).idxOf (some keyword) = i := by
  rw [List.idxOf, List.findIdx_map]
  exact (List.findIdx?_eq_some_iff_findIdx_eq.1 h).2

/-- A term that is put in the place of the first one with its keyword leaves all keywords where they are.
-/
theorem map_keyword_set (h : source.keyword = some keyword) {terms : List Term} {i : Nat}
    (hi : terms.findIdx? (·.hasKeyword keyword) = some i) :
    (terms.set i source).map Term.keyword = terms.map Term.keyword := by
  obtain ⟨hlt, hhas, -⟩ := List.findIdx?_eq_some_iff_getElem.1 hi
  have hlt' : i < (terms.map Term.keyword).length := by simpa using hlt
  have hsame : (terms.map Term.keyword)[i] = some keyword := by
    rw [List.getElem_map, hasKeyword_iff.1 hhas]
  rw [List.map_set, h, ← hsame, List.set_getElem_self]

/-- A term that is put in the place of the first one with its keyword is overwritten by what comes after
it, as that one is by the term and what comes after it. -/
theorem overwrite_set (h : source.keyword = some keyword) {terms : List Term} {i : Nat}
    (hi : terms.findIdx? (·.hasKeyword keyword) = some i) (sources : List Term) :
    overwrite sources (terms.set i source) = overwrite (source :: sources) terms := by
  have hindex := idxOf_keyword hi
  obtain ⟨hlt, hhas, -⟩ := List.findIdx?_eq_some_iff_getElem.1 hi
  have hfirst : terms[i].keyword = some keyword := hasKeyword_iff.1 hhas
  have hkeywords := map_keyword_set h hi
  apply List.ext_getElem?
  intro j
  rw [overwrite, overwrite, hkeywords, List.getElem?_mapIdx, List.getElem?_mapIdx]
  by_cases hij : i = j
  · subst hij
    rw [List.getElem?_set_self hlt, List.getElem?_eq_getElem hlt, Option.map_some, Option.map_some,
      h, hfirst, if_pos hindex, if_pos hindex, latest_cons_self h hfirst]
  · rw [List.getElem?_set_ne hij]
    cases terms[j]? with
    | none => rfl
    | some term =>
      rw [Option.map_some, Option.map_some]
      split
      · next hj =>
        -- the keyword of this term occurs first at another place
        rw [latest_cons_of_ne]
        intro hsame
        rw [← hsame, h] at hj
        exact hij (hindex.symm.trans hj)
      · rfl

/-- A term with a new keyword that is put at the end stays there and is overwritten by what comes after
it. -/
theorem overwrite_concat (h : source.keyword = some keyword) {terms : List Term}
    (hnone : terms.findIdx? (·.hasKeyword keyword) = none) (sources : List Term) :
    overwrite sources (terms ++ [source])
      = overwrite (source :: sources) terms ++ [latest sources source] := by
  rw [List.findIdx?_eq_none_iff] at hnone
  have hnew : source.keyword ∉ terms.map Term.keyword := by
    intro hmem
    obtain ⟨term, hterm, hkeyword⟩ := List.mem_map.1 hmem
    have hhas := hasKeyword_iff.2 (hkeyword.trans h)
    rw [hnone term hterm] at hhas
    contradiction
  have hold : ∀ term ∈ terms, latest (source :: sources) term = latest sources term := by
    intro term hterm
    apply latest_cons_of_ne
    intro hsame
    exact hnew (hsame ▸ List.mem_map_of_mem hterm)
  rw [overwrite, overwrite, List.mapIdx_append, List.map_append]
  congr 1
  · rw [List.mapIdx_eq_mapIdx_iff]
    intro i hi
    have hmem := List.getElem_mem hi
    rw [List.idxOf_append, if_pos (List.mem_map_of_mem hmem), hold _ hmem]
  · rw [List.mapIdx_cons, List.mapIdx_nil, List.idxOf_append, if_neg hnew]
    simp

/-! ## Terms that are added -/

/-- Whether a list has a keyword depends on its keywords only. -/
theorem any_hasKeyword_eq (keyword : String) (terms : List Term) :
    terms.any (·.hasKeyword keyword) = (terms.map Term.keyword).any (· == some keyword) := by
  rw [List.any_map]
  rfl

/-- Nothing is added by nothing. -/
theorem added_nil (terms : List Term) : added [] terms = [] := by
  rw [added, List.filterMap_nil, List.eraseDups_nil, List.filter_nil, List.filterMap_nil]

/-- Nothing is added by a bare term. -/
theorem added_cons_of_bare (h : source.keyword = none) (sources terms : List Term) :
    added (source :: sources) terms = added sources terms := by
  rw [added, added, List.filterMap_cons_none h, last?_cons_of_bare h]

/-- A term in front of others adds the last one with its keyword, if the keyword is new, and leaves to
the others what they add for other keywords. -/
theorem added_cons (h : source.keyword = some keyword) (sources terms : List Term) :
    added (source :: sources) terms
      = (if terms.any (·.hasKeyword keyword) then [] else [latest sources source])
        ++ ((sources.filterMap Term.keyword).eraseDups.filter fun new =>
          !terms.any (·.hasKeyword new) && new != keyword).filterMap (last? sources) := by
  have hlast : ∀ new ∈ (sources.filterMap Term.keyword).eraseDups.filter fun new =>
      !terms.any (·.hasKeyword new) && new != keyword,
      last? (source :: sources) new = last? sources new := by
    intro new hnew
    rw [List.mem_filter, Bool.and_eq_true, bne_iff_ne] at hnew
    apply last?_cons_of_ne
    simpa [h] using Ne.symm hnew.2.2
  rw [added, List.filterMap_cons_some h, List.eraseDups_cons, eraseDups_filter, List.filter_cons,
    List.filter_filter]
  split
  · next hnew =>
    rw [if_neg (by simpa using hnew), List.filterMap_cons_some (last?_cons_self h sources),
      List.singleton_append]
    congr 1
    exact List.filterMap_congr hlast
  · next hold =>
    rw [if_pos (by simpa using hold), List.nil_append]
    exact List.filterMap_congr hlast

/-- A term that is put in the place of the first one with its keyword has nothing added for it. -/
theorem added_set (h : source.keyword = some keyword) {terms : List Term} {i : Nat}
    (hi : terms.findIdx? (·.hasKeyword keyword) = some i) (sources : List Term) :
    added sources (terms.set i source) = added (source :: sources) terms := by
  obtain ⟨hlt, hhas, -⟩ := List.findIdx?_eq_some_iff_getElem.1 hi
  have hpresent : terms.any (·.hasKeyword keyword) = true :=
    List.any_eq_true.2 ⟨terms[i], List.getElem_mem hlt, hhas⟩
  rw [added_cons h, if_pos hpresent, List.nil_append, added]
  congr 1
  apply List.filter_congr
  intro new _
  rw [any_hasKeyword_eq, map_keyword_set h hi, ← any_hasKeyword_eq]
  by_cases hnew : new = keyword
  · simp [hnew, hpresent]
  · simp [hnew]

/-- A term with a new keyword that is put at the end is the first one that is added. -/
theorem added_concat (h : source.keyword = some keyword) {terms : List Term}
    (hnone : terms.findIdx? (·.hasKeyword keyword) = none) (sources : List Term) :
    latest sources source :: added sources (terms ++ [source]) = added (source :: sources) terms := by
  have hlacks : terms.any (·.hasKeyword keyword) = false := by
    rw [List.any_eq_false]
    simpa using List.findIdx?_eq_none_iff.1 hnone
  rw [added_cons h, hlacks, if_neg Bool.false_ne_true, List.singleton_append, added]
  congr 2
  apply List.filter_congr
  intro new _
  rw [List.any_append, List.any_cons, List.any_nil, Bool.or_false, hasKeyword, h]
  cases terms.any (·.hasKeyword new) with
  | true => rfl
  | false =>
    by_cases hnew : new = keyword
    · simp [hnew]
    · have hother : (keyword == new) = false := beq_eq_false_iff_ne.2 (Ne.symm hnew)
      simp [hnew, hother]

end Term

namespace Filter

open Term (overwrite added)

/-! ## Taking over -/

variable {source : Term} {keyword : String} {terms : List Term}

/-- A term with a keyword and a relation is taken over in the place of the first term with the keyword.
-/
theorem mergeTerm_eq_set (h : source.keyword = some keyword) (hrelation : source.relation.isSome)
    {i : Nat} (hi : terms.findIdx? (·.hasKeyword keyword) = some i) :
    mergeTerm terms source = terms.set i source := by
  rw [mergeTerm_of_some h, Term.upsert_eq_set _ hi]
  intro term hterm
  exact Term.replace_eq_of_keyword hterm h hrelation

/-- A term with a keyword is taken over at the end, if no term has the keyword. -/
theorem mergeTerm_eq_append (h : source.keyword = some keyword)
    (hnone : terms.findIdx? (·.hasKeyword keyword) = none) :
    mergeTerm terms source = terms ++ [source] := by
  rw [mergeTerm_of_some h, Term.upsert_eq_append hnone]

/-- **What comes of a list of terms that are taken over**, if each of them that has a keyword says a
relation.

**Proof sketch.** Induction on the terms that are taken over. The first one of them is put in the place of
the first term with its keyword or at the end, and so leaves a list to which the induction hypothesis
applies: there it is overwritten by the last one with its keyword, if there is one after it. -/
theorem foldl_mergeTerm_eq {sources : List Term}
    (h : ∀ source ∈ sources, source.keyword.isSome → source.relation.isSome) (terms : List Term) :
    sources.foldl mergeTerm terms = overwrite sources terms ++ added sources terms := by
  induction sources generalizing terms with
  | nil => rw [List.foldl_nil, Term.overwrite_nil, Term.added_nil, List.append_nil]
  | cons source sources ih =>
    obtain ⟨hsource, hrest⟩ := List.forall_mem_cons.1 h
    rw [List.foldl_cons, ih hrest]
    cases hkeyword : source.keyword with
    | none =>
      rw [mergeTerm_of_none hkeyword, Term.overwrite_cons_of_bare hkeyword,
        Term.added_cons_of_bare hkeyword]
    | some keyword =>
      cases hi : terms.findIdx? (·.hasKeyword keyword) with
      | none =>
        rw [mergeTerm_eq_append hkeyword hi, Term.overwrite_concat hkeyword hi, List.append_assoc,
          List.singleton_append, Term.added_concat hkeyword hi]
      | some i =>
        have hrelation := hsource (Option.isSome_iff_exists.2 ⟨keyword, hkeyword⟩)
        rw [mergeTerm_eq_set hkeyword hrelation hi, Term.overwrite_set hkeyword hi,
          Term.added_set hkeyword hi]

/-- Taking over only the terms with a keyword gives the same terms. -/
theorem foldl_mergeTerm_filter (sources terms : List Term) :
    (sources.filter (!·.isBare)).foldl mergeTerm terms = sources.foldl mergeTerm terms := by
  induction sources generalizing terms with
  | nil => rfl
  | cons source sources ih =>
    rw [List.foldl_cons, ← ih, List.filter_cons]
    cases hkeyword : source.keyword with
    | none => simp [Term.isBare, hkeyword, mergeTerm_of_none hkeyword]
    | some keyword => simp [Term.isBare, hkeyword]

/-- **What comes of taking over the keywords of another filter**, each of whose terms with a keyword says
a relation. The terms stand in their order, and the first one with each keyword of the other filter gives
way to the last one there that has the keyword, so that it has the relation and the value of that one;
later ones stay. After them comes one term for each keyword that only the other filter has, in the order
in which these keywords occur there first, and again it is the last one that has the keyword. The
identity stays. Bare terms of the other filter play no part. -/
theorem mergeKeywords_eq_overwrite_append_added (filter : Filter) {other : Filter}
    (h : ∀ term ∈ other.terms, term.keyword.isSome → term.relation.isSome) :
    filter.mergeKeywords other
        = { filter with
          terms := overwrite other.terms filter.terms ++ added other.terms filter.terms } ∧
      (overwrite other.terms filter.terms).map Term.keyword = filter.terms.map Term.keyword ∧
      filter.mergeKeywords other
        = filter.mergeKeywords { other with terms := other.keywordTerms } := by
  refine ⟨?_, Term.map_keyword_overwrite other.terms filter.terms, ?_⟩
  · rw [mergeKeywords, foldl_mergeTerm_eq h]
  · rw [mergeKeywords, mergeKeywords, keywordTerms, foldl_mergeTerm_filter]

/-- Two keywords occur twice in the other filter, one of which is new, and one occurs twice in the
filter. -/
theorem mergeKeywords_eq_overwrite_append_added_two :
    let filter := ofString "name=x word name=y rows=5"
    let other := ofString "sort=due name~a and sort=age name:b first=3"
    (∀ term ∈ other.terms, term.keyword.isSome → term.relation.isSome) ∧
      overwrite other.terms filter.terms
        = [.keyed "name" .tag "b", .bare none "word", .keyed "name" .equal "y",
          .keyed "rows" .equal "5"] ∧
      added other.terms filter.terms
        = [.keyed "sort" .equal "age", .keyed "first" .equal "3"] ∧
      filter.mergeKeywords other
        = { filter with
          terms := overwrite other.terms filter.terms ++ added other.terms filter.terms } := by
  intro filter other
  have h : ∀ term ∈ other.terms, term.keyword.isSome → term.relation.isSome := by
    decide +kernel +zetaReduce
  refine ⟨h, ?_, ?_, (mergeKeywords_eq_overwrite_append_added filter h).1⟩
  · decide +kernel +zetaReduce
  · decide +kernel +zetaReduce

end Filter

end QueryFilter
