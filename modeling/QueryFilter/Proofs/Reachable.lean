import QueryFilter.Proofs.Editing
import QueryFilter.Proofs.Recording

set_option relaxedAutoImplicit false
set_option autoImplicit false

/-!
# Reachable filters

Filters come from texts, from saved filters and from nothing, and are then edited. On each of these
ways terms are checked and quoted by other means: by the grammar, by the checks of records, and by
the edits themselves. What holds of all terms in the end is the same.

## Main definitions

* `QueryFilter.Filter.Reachable` — the filters that can be made without putting terms together by
  hand.
* `QueryFilter.Term.IsSound` — what holds of all their terms.

## Main results

* `QueryFilter.Term.IsCanonical.isSound`, `QueryFilter.Record.isSound_of_toTerm` — what is read and
  what is made of a record is sound.
* `QueryFilter.Filter.forall_isSound_apply` — an edit keeps all terms sound.
* `QueryFilter.Filter.Reachable.terms_wellFormed` — the terms of reachable filters.
-/

namespace QueryFilter

/-- A separator in a stored text comes with a quote. -/
theorem any_isQuote_quoteValue (value : String)
    (h : (quoteValue value).toList.any isSeparator = true) :
    (quoteValue value).toList.any isQuote = true :=
  (quoteValue_eq_self_iff (quoteValue value)).1 (quoteValue_quoteValue value) h

namespace Term

/-- A term whose keyword is valid and comes with a relation, and in whose value a separator comes
with a quote. -/
structure IsSound (term : Term) : Prop where
  keyword_isValid : ∀ keyword, term.keyword = some keyword →
    Keyword.isValid keyword = true ∧ term.relation.isSome = true
  value_isQuoted : term.value.toList.any isSeparator = true → term.value.toList.any isQuote = true

/-- A term that is made for a valid keyword is sound when its value is quoted where it has to be. -/
theorem isSound_keyed {keyword : String} (hk : Keyword.isValid keyword = true) (relation : Relation)
    {value : String}
    (h : value.toList.any isSeparator = true → value.toList.any isQuote = true) :
    (keyed keyword relation value).IsSound := by
  refine ⟨?_, h⟩
  intro present hpresent
  have hkeyword := keyword_keyed hk relation value
  rw [hkeyword, Option.some.injEq] at hpresent
  subst hpresent
  exact ⟨hk, rfl⟩

/-- A canonical term is sound: separators of its value stand inside quotes. -/
theorem IsCanonical.isSound {term : Term} (h : term.IsCanonical) : term.IsSound :=
  ⟨h.keyword_isValid, Quotes.any_isQuote_of_isSolid h.value_isSolid⟩

/-- What is taken over from a sound term is sound. -/
theorem IsSound.of_comesFrom {source term : Term} (h : source.IsSound)
    (hfrom : source.ComesFrom term) : term.IsSound := by
  obtain ⟨keyword, hkeyword, rfl | rfl⟩ := hfrom
  · exact h
  · exact isSound_keyed (h.keyword_isValid keyword hkeyword).1 _ h.value_isQuoted

end Term

/-- What is stored for a value is quoted where it has to be. -/
theorem KeywordValue.any_isQuote_stored (value : KeywordValue)
    (h : value.stored.toList.any isSeparator = true) : value.stored.toList.any isQuote = true := by
  cases value with
  | number n => exact Quotes.any_isQuote_of_isSolid (isSolid_ofInt64 n) h
  | text value => exact any_isQuote_quoteValue value h

/-- The term of a record is sound. -/
theorem Record.isSound_of_toTerm {record : Record} {term : Term} (h : record.toTerm = .ok term) :
    term.IsSound := by
  obtain ⟨text, relation, -, -, ⟨-, rfl⟩ | ⟨hvalid, rfl⟩⟩ := toTerm_eq_ok_iff.1 h
  · refine ⟨?_, any_isQuote_quoteValue text⟩
    intro keyword hkeyword
    contradiction
  · exact Term.isSound_keyed hvalid _ (any_isQuote_quoteValue text)

namespace Filter

/-! ## Constructors -/

/-- The terms that are read from a text are sound. -/
theorem forall_isSound_ofString (text : String) : ∀ term ∈ (ofString text).terms, term.IsSound := by
  intro term hterm
  exact ((faithful_terms_ofString text).isCanonical term hterm).isSound

/-- The terms of a saved filter are sound, whether they come from its records or from its text. -/
theorem forall_isSound_ofSaved {saved : SavedFilter} {filter : Filter}
    (h : ofSaved saved = .ok filter) : ∀ term ∈ filter.terms, term.IsSound := by
  cases hrecords : saved.keywords with
  | some records =>
    obtain ⟨hmembers, -⟩ := (ofSaved_eq_ok_iff hrecords).1 h
    have hiff : ∀ (record : Record) (term : Term), record.toTerm = .ok term →
        (True ↔ term.IsSound) := by
      intro record term hterm
      exact iff_of_true trivial (Record.isSound_of_toTerm hterm)
    exact (forall_mem_iff_of_forall₂ hiff hmembers).1 fun _ _ => trivial
  | none =>
    have hkeywords : saved.hasKeywords = false := by
      rw [SavedFilter.hasKeywords, hrecords]
      rfl
    rw [ofSaved, hkeywords] at h
    cases h
    cases saved.term with
    | none => simp
    | some text => exact forall_isSound_ofString text

/-! ## Edits -/

/-- What an edit writes is sound, when all terms of the filter are and those of a filter that is
merged. -/
theorem isSound_of_writes {filter : Filter} {edit : Edit}
    (hmerged : ∀ other, edit = .mergeKeywords other → ∀ term ∈ other.terms, term.IsSound)
    {term : Term} (hwrites : edit.Writes filter term) : term.IsSound := by
  have hfirst : Keyword.isValid Keyword.first = true := by decide
  have hnumber (n : Int64) := KeywordValue.any_isQuote_stored (.number n)
  cases edit with
  | set keyword value relation =>
    obtain ⟨hk, rfl⟩ := hwrites
    exact Term.isSound_keyed hk relation value.any_isQuote_stored
  | delete keyword => exact False.elim hwrites
  | setSortBy field =>
    obtain ⟨order, rfl⟩ := hwrites
    exact Term.isSound_keyed order.isValid_keyword .equal (any_isQuote_quoteValue field)
  | setSortOrder order =>
    obtain ⟨field, -, rfl⟩ := hwrites
    exact Term.isSound_keyed order.isValid_keyword .equal (any_isQuote_quoteValue field)
  | mergeKeywords other =>
    obtain ⟨source, hsource, hfrom⟩ := hwrites
    exact (hmerged other rfl source hsource).of_comesFrom hfrom
  | next _ | previous _ | firstPage =>
    obtain ⟨n, rfl⟩ := hwrites
    exact Term.isSound_keyed hfirst .equal (hnumber n)
  | allRows =>
    obtain ⟨keyword, n, hkeyword, rfl⟩ := hwrites
    have hk : Keyword.isValid keyword = true := by
      rcases hkeyword with rfl | rfl <;> decide
    exact Term.isSound_keyed hk .equal (hnumber n)
  | simple => exact False.elim hwrites

/-- **An edit keeps all terms sound**, with any arguments; only a filter that is merged has to have
sound terms itself. -/
theorem forall_isSound_apply {filter : Filter} (h : ∀ term ∈ filter.terms, term.IsSound)
    {edit : Edit}
    (hmerged : ∀ other, edit = .mergeKeywords other → ∀ term ∈ other.terms, term.IsSound) :
    ∀ term ∈ (filter.apply edit).terms, term.IsSound :=
  forall_mem_terms_apply h fun _ hwrites => isSound_of_writes hmerged hwrites

/-! ## Reachable filters -/

/-- The filters that are made from nothing, from any text, from any saved filter or its JSON text
that is accepted, and by any edits of them; a filter that is merged comes about in the same manner.
A copy of a filter is that filter. -/
inductive Reachable : Filter → Prop
  | empty : Reachable empty
  | ofString (text : String) : Reachable (ofString text)
  | ofSaved {saved : SavedFilter} {filter : Filter} (h : ofSaved saved = .ok filter) :
      Reachable filter
  | ofJson {source : String} {filter : Filter} (h : ofJson source = .ok filter) : Reachable filter
  | apply {filter : Filter} {edit : Edit} (h : Reachable filter)
      (hmerged : ∀ other, edit = .mergeKeywords other → Reachable other) :
      Reachable (filter.apply edit)

namespace Reachable

/-- All terms of a reachable filter are sound. -/
theorem forall_isSound {filter : Filter} (h : Reachable filter) :
    ∀ term ∈ filter.terms, term.IsSound := by
  induction h with
  | empty => exact List.forall_mem_nil _
  | ofString text => exact forall_isSound_ofString text
  | ofSaved h => exact forall_isSound_ofSaved h
  | ofJson h =>
    obtain ⟨saved, -, hsaved⟩ := Error.bind_eq_ok_iff.1 h
    exact forall_isSound_ofSaved hsaved
  | apply _ _ ih ihMerged => exact forall_isSound_apply ih ihMerged

/-- A run of edits leads from a reachable filter to one. -/
theorem applyAll {filter : Filter} (h : Reachable filter) {edits : List Edit}
    (hmerged : ∀ edit ∈ edits, ∀ other, edit = .mergeKeywords other → Reachable other) :
    Reachable (filter.applyAll edits) := by
  induction edits generalizing filter with
  | nil => exact h
  | cons edit edits ih =>
    rw [List.forall_mem_cons] at hmerged
    exact ih (h.apply hmerged.1) hmerged.2

/-- **The terms of reachable filters.** In every filter that comes from a text, a saved filter or
nothing by edits with any arguments, a term with a keyword has a valid one and says a relation, and a
value that holds a separator holds a quote too; so what is stored is never quoted again. -/
theorem terms_wellFormed {filter : Filter} (h : Reachable filter) :
    ∀ term ∈ filter.terms,
      (∀ keyword, term.keyword = some keyword →
        Keyword.isValid keyword = true ∧ term.relation.isSome = true) ∧
      ((∃ c ∈ term.value.toList, isSeparator c = true) → '"' ∈ term.value.toList) ∧
      quoteValue term.value = term.value := by
  intro term hterm
  have hsound := h.forall_isSound term hterm
  refine ⟨hsound.keyword_isValid, ?_, (quoteValue_eq_self_iff term.value).2 hsound.value_isQuoted⟩
  intro hsep
  have hquote := hsound.value_isQuoted (List.any_eq_true.2 hsep)
  by_contra hnone
  rw [(Quotes.any_isQuote_eq_false_iff _).2 hnone] at hquote
  contradiction

/-- The terms of a saved filter with one record, after a value with a space was set and a text with a
quoted value was merged. -/
theorem terms_wellFormed_three :
    let source := "\x7b\"keywords\":\x7b\"keyword\":\x7b\"column\":\"rows\",\"value\":10\x7d\x7d\x7d"
    let saved := Filter.ofTerms [.keyed "rows" .equal "10"]
    let edits : List Edit :=
      [.set "name" (.text "a b") .approx, .mergeKeywords (.ofString "note=\"c, d\" word")]
    Filter.ofJson source = .ok saved ∧ Reachable (saved.applyAll edits) ∧
      (saved.applyAll edits).terms = [.keyed "rows" .equal "10", .keyed "name" .approx "\"a b\"",
        .keyed "note" .equal "\"c, d\""] ∧
      ∀ term ∈ (saved.applyAll edits).terms,
        (∀ keyword, term.keyword = some keyword →
          Keyword.isValid keyword = true ∧ term.relation.isSome = true) ∧
        ((∃ c ∈ term.value.toList, isSeparator c = true) → '"' ∈ term.value.toList) ∧
        quoteValue term.value = term.value := by
  intro source saved edits
  have hsource : Filter.ofJson source = .ok saved := by decide +kernel +zetaReduce
  have hmerged : ∀ edit ∈ edits, ∀ other, edit = .mergeKeywords other → Reachable other := by
    have hother : Reachable (.ofString "note=\"c, d\" word") := .ofString _
    simpa [edits] using hother
  have hreachable : Reachable (saved.applyAll edits) := (Reachable.ofJson hsource).applyAll hmerged
  exact ⟨hsource, hreachable, by decide +kernel +zetaReduce, terms_wellFormed hreachable⟩

end Reachable

end Filter

end QueryFilter
