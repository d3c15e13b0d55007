import QueryFilter.Proofs.Lookup
import QueryFilter.Proofs.Overwriting
import QueryFilter.Proofs.Reachable

set_option relaxedAutoImplicit false
set_option autoImplicit false

/-!
# Setting a keyword to what was found for it

The value of a keyword that is set to what was found for it stays the same, if the terms of the filter
are sound: their keywords can be set, and their values are not quoted a second time. The term itself may
change, in its relation and in how a number is written.

## Main results

* `QueryFilter.Filter.getWith?_set_of_isSound` — the value that is found stays the same.
* `QueryFilter.Filter.set_reads_back` — setting a keyword in full: which term is set, where it stands,
  and what is found for each keyword then.
-/

namespace QueryFilter

namespace Filter

/-- A term that is found stands in the filter and has the keyword. -/
theorem of_getTerm?_eq_some {filter : Filter} {keyword : String} {term : Term}
    (h : filter.getTerm? keyword = some term) :
    term ∈ filter.terms ∧ term.keyword = some keyword :=
  ⟨List.mem_of_find?_eq_some h, Term.hasKeyword_iff.1 (by simpa using List.find?_some h)⟩

/-- Setting a keyword to the value that was found for it leaves that value alone, where terms are sound.
-/
theorem getWith?_set_of_isSound {filter : Filter} (h : ∀ term ∈ filter.terms, term.IsSound)
    {settings : Settings} {keyword : String} {value : KeywordValue}
    (hread : filter.getWith? settings keyword = some value) (relation : Relation) :
    (filter.set keyword value relation).getWith? settings keyword = some value := by
  obtain ⟨term, hterm, rfl⟩ := Option.map_eq_some_iff.1 hread
  obtain ⟨hmem, hkeyword⟩ := of_getTerm?_eq_some hterm
  have hsound := h term hmem
  have hvalid := (hsound.keyword_isValid keyword hkeyword).1
  have hquoted : quoteValue term.value = term.value :=
    (quoteValue_eq_self_iff term.value).2 hsound.value_isQuoted
  rw [getWith?_set hvalid, valueOf_stored_valueOf hquoted]

/-- **Setting a keyword and reading it back.** After a valid keyword is set, what is found for it is a
term with the keyword, the relation and the stored text of the value: the decimal text of a number, or a
text in quotes if it needs them. The term stands in the place of the first one that had the keyword, or
at the end if none had it, and all others stand where they stood. A number is found again if the keyword
is numeric, and the values of other keywords are found as before. Setting an invalid keyword changes
nothing. Where the terms are those of a reachable filter, a keyword that is there can be set to the value
that is found for it, and the same value is found then. -/
theorem set_reads_back (filter : Filter) (settings : Settings) (keyword : String)
    (value : KeywordValue) (relation : Relation) :
    let result := filter.set keyword value relation
    (Keyword.isValid keyword = true →
      ∃ term : Term, term.keyword = some keyword ∧ term.relation = some relation ∧
        term.value = value.stored ∧ result.getTerm? keyword = some term ∧
        (∀ i, filter.terms.findIdx? (·.hasKeyword keyword) = some i →
          result = { filter with terms := filter.terms.set i term }) ∧
        (filter.terms.findIdx? (·.hasKeyword keyword) = none →
          result = { filter with terms := filter.terms ++ [term] }) ∧
        ∀ n, value = .number n → settings.isNumeric keyword = true →
          result.getWith? settings keyword = some (.number n)) ∧
    (∀ other, keyword ≠ other →
      result.getWith? settings other = filter.getWith? settings other) ∧
    (Keyword.isValid keyword = false → result = filter) ∧
    ∀ origin : Filter, Reachable origin → filter.terms = origin.terms →
      filter.has keyword = true →
        ∃ found, filter.getWith? settings keyword = some found ∧
          (filter.set keyword found relation).getWith? settings keyword = some found := by
  intro result
  refine ⟨?_, ?_, ?_, ?_⟩
  · intro hk
    have hkeyword := Term.keyword_keyed hk relation value.stored
    refine ⟨.keyed keyword relation value.stored, hkeyword, rfl, rfl, getTerm?_set hk filter _ _,
      ?_, ?_, ?_⟩
    · intro i hi
      exact set_eq_of_findIdx?_eq_some hk hi value relation
    · intro hnone
      exact set_eq_of_findIdx?_eq_none hk hnone value relation
    · rintro n rfl hnumeric
      rw [show result = _ from rfl, getWith?_set hk, valueOf_stored_number hnumeric]
  · intro other hne
    exact getWith?_set_of_ne hne filter value relation settings
  · intro hk
    exact set_of_not_isValid hk filter value relation
  · intro origin horigin hterms hhas
    have hsound : ∀ term ∈ filter.terms, term.IsSound := hterms ▸ horigin.forall_isSound
    obtain ⟨term, hterm⟩ := Option.isSome_iff_exists.1 hhas
    have hread : filter.getWith? settings keyword
        = some (valueOf settings keyword term.value) := by
      rw [getWith?, hterm]
      rfl
    exact ⟨_, hread, getWith?_set_of_isSound hsound hread relation⟩

/-- The first of two terms for a numeric keyword is set; then what was found for it, a number with a sign
and a leading zero, is set again. -/
theorem set_reads_back_rows :
    let filter := ofString "x name=\"a b\" rows=+07 rows=3"
    let result := filter.set "rows" (.number 20) .less
    Keyword.isValid "rows" = true ∧ Keyword.isValid "a b" = false ∧
      Settings.default.isNumeric "rows" = true ∧
      filter.terms.findIdx? (·.hasKeyword "rows") = some 2 ∧
      filter.has "rows" = true ∧ Reachable filter ∧
      (∃ term : Term, term.keyword = some "rows" ∧ term.relation = some .less ∧ term.value = "20" ∧
        result = { filter with terms := filter.terms.set 2 term }) ∧
      result.getWith? .default "rows" = some (.number 20) ∧
      result.getWith? .default "name" = some (.text "\"a b\"") ∧
      filter.set "a b" (.number 20) .less = filter ∧
      filter.getWith? .default "rows" = some (.number 7) ∧
      (filter.set "rows" (.number 7) .less).getWith? .default "rows" = some (.number 7) := by
  intro filter result
  have hk : Keyword.isValid "rows" = true := by decide
  have hinvalid : Keyword.isValid "a b" = false := by decide
  have hnumeric : Settings.default.isNumeric "rows" = true := by decide
  have hindex : filter.terms.findIdx? (·.hasKeyword "rows") = some 2 := by
    decide +kernel +zetaReduce
  have hhas : filter.has "rows" = true := by decide +kernel +zetaReduce
  have hreachable : Reachable filter := .ofString _
  have hname : filter.getWith? .default "name" = some (.text "\"a b\"") := by
    decide +kernel +zetaReduce
  have hrows : filter.getWith? .default "rows" = some (.number 7) := by
    decide +kernel +zetaReduce
  obtain ⟨hset, hother, -, hback⟩ := set_reads_back filter .default "rows" (.number 20) .less
  obtain ⟨-, -, hkept, -⟩ := set_reads_back filter .default "a b" (.number 20) .less
  obtain ⟨term, hkeyword, hrelation, hvalue, -, hplace, -, hnumber⟩ := hset hk
  obtain ⟨found, hfound, hagain⟩ := hback filter hreachable rfl hhas
  have hseven : found = .number 7 := Option.some.inj (hfound.symm.trans hrows)
  rw [hseven] at hagain
  exact ⟨hk, hinvalid, hnumeric, hindex, hhas, hreachable,
    ⟨term, hkeyword, hrelation, hvalue, hplace 2 hindex⟩, hnumber 20 rfl hnumeric,
    (hother "name" (by decide)).trans hname, hkept hinvalid, hrows, hagain⟩

end Filter

end QueryFilter
