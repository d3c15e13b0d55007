import Mathlib.Data.List.Forall2
import QueryFilter.Proofs.Setting
import QueryFilter.SavedFilter

set_option relaxedAutoImplicit false
set_option autoImplicit false

/-!
# Records, writing and reading back

The records of a saved filter are made into terms without a text in between. Not all of these terms
are those that their text is read as: quotes in a value are left as they are, and a value that stands
alone is not looked at, so that it may be empty or may be taken for a keyword with its value. This
file finds out exactly when the terms of records are read back.

## Main definitions

* `QueryFilter.Record.IsReadable` — what a record and the text of its value must be like.

## Main results

* `QueryFilter.Record.toTerm_eq_ok_iff` — the term of a record.
* `QueryFilter.Record.isCanonical_iff` — the records whose terms are canonical.
* `QueryFilter.Filter.ofSaved_eq_ok_iff` — the filter of a saved filter with records.
* `QueryFilter.Filter.ofString_ofSaved_iff` — when the terms of records are read back.
-/

namespace QueryFilter

namespace Error

/-- A step succeeds when it does not fail. -/
theorem exists_eq_ok_iff {α : Type} {result : Except Error α} :
    (∃ value, result = .ok value) ↔ ∀ fault, result ≠ .error fault := by
  cases result with
  | error fault => simp
  | ok value => simp

/-- Two steps succeed when the first one does and the second one does with its result. -/
theorem bind_eq_ok_iff {α β : Type} {first : Except Error α} {second : α → Except Error β}
    {result : β} :
    (first >>= second) = .ok result ↔ ∃ value, first = .ok value ∧ second value = .ok result := by
  cases first with
  | error fault => simp [bind, Except.bind]
  | ok value => simp [bind, Except.bind]

/-- Two steps fail when the first one does, or else the second one with its result. -/
theorem bind_eq_error_iff {α β : Type} {first : Except Error α} {second : α → Except Error β}
    {fault : Error} :
    (first >>= second) = .error fault ↔
      first = .error fault ∨ ∃ value, first = .ok value ∧ second value = .error fault := by
  cases first with
  | error found => simp [bind, Except.bind]
  | ok value => simp [bind, Except.bind]

/-- Steps for all members of a list succeed when each of them does, with its own result. -/
theorem mapM_eq_ok_iff {α β : Type} {step : α → Except Error β} {list : List α}
    {results : List β} :
    list.mapM step = .ok results
      ↔ List.Forall₂ (fun member result => step member = .ok result) list results := by
  induction list generalizing results with
  | nil => simp [pure, Except.pure, eq_comm]
  | cons member list ih =>
    rw [List.mapM_cons, bind_eq_ok_iff]
    simp only [bind_eq_ok_iff, ih, List.forall₂_cons_left_iff]
    constructor
    · rintro ⟨result, hresult, rest, hrest, heq⟩
      cases heq
      exact ⟨result, rest, hresult, hrest, rfl⟩
    · rintro ⟨result, rest, hresult, hrest, rfl⟩
      exact ⟨result, hresult, rest, hrest, rfl⟩

/-- Steps for all members of a list fail when one of them does after others that succeed, and with its
fault. -/
theorem mapM_eq_error_iff {α β : Type} {step : α → Except Error β} {list : List α} {fault : Error} :
    list.mapM step = .error fault ↔
      ∃ before member after, list = before ++ member :: after ∧
        (∀ earlier ∈ before, ∃ result, step earlier = .ok result) ∧ step member = .error fault := by
  induction list with
  | nil => simp [pure, Except.pure]
  | cons first list ih =>
    have hend (result : β) : (list.mapM step >>= fun results => pure (result :: results))
        = .error fault ↔ list.mapM step = .error fault := by
      rw [bind_eq_error_iff]
      simp [pure, Except.pure]
    rw [List.mapM_cons, bind_eq_error_iff]
    simp only [hend, ih]
    constructor
    · rintro (hfirst | ⟨result, hresult, before, member, after, rfl, hbefore, hmember⟩)
      · exact ⟨[], first, list, rfl, nofun, hfirst⟩
      · refine ⟨first :: before, member, after, rfl, ?_, hmember⟩
        rw [List.forall_mem_cons]
        exact ⟨⟨result, hresult⟩, hbefore⟩
    · rintro ⟨before, member, after, hlist, hbefore, hmember⟩
      cases before with
      | nil =>
        cases hlist
        exact .inl hmember
      | cons earlier before =>
        cases hlist
        rw [List.forall_mem_cons] at hbefore
        obtain ⟨⟨result, hresult⟩, hbefore⟩ := hbefore
        exact .inr ⟨result, hresult, before, member, after, rfl, hbefore, hmember⟩

end Error

namespace Record

open Quotes

/-! ## The term of a record -/

/-- A record has no relation exactly when its text for one is empty. -/
theorem eq_none_iff_of_relation? {record : Record} {relation : Option Relation}
    (h : record.relation? = .ok relation) : relation = none ↔ record.relation = "" := by
  unfold relation? at h
  split at h
  · next hempty =>
    cases h
    simp [hempty]
  · next hempty =>
    cases hparse : Relation.parse record.relation with
    | error fault =>
      rw [hparse] at h
      contradiction
    | ok r =>
      rw [hparse] at h
      cases h
      simp [hempty]

/-- **The term of a record.** Its value is stored as any other; with a column the term says
equality if no relation is given, and without one it is bare. -/
theorem toTerm_eq_ok_iff {record : Record} {term : Term} :
    record.toTerm = .ok term ↔
      ∃ text relation, record.valueText = .ok text ∧ record.relation? = .ok relation ∧
        (record.column = "" ∧
            term = .bare (bareRelation relation (quoteValue text)) (quoteValue text) ∨
          Keyword.isValid record.column = true ∧
            term = .keyed record.column (relation.getD .equal) (quoteValue text)) := by
  unfold toTerm
  simp only [Error.bind_eq_ok_iff]
  constructor
  · rintro ⟨text, htext, relation, hrelation, h⟩
    refine ⟨text, relation, htext, hrelation, ?_⟩
    split at h
    · next hcolumn =>
      cases h
      exact .inl ⟨hcolumn, rfl⟩
    · split at h
      · next hvalid =>
        cases h
        exact .inr ⟨hvalid, rfl⟩
      · contradiction
  · rintro ⟨text, relation, htext, hrelation, ⟨hcolumn, rfl⟩ | ⟨hvalid, rfl⟩⟩
    · exact ⟨text, htext, relation, hrelation, if_pos hcolumn⟩
    · refine ⟨text, htext, relation, hrelation, ?_⟩
      rw [if_neg (Keyword.ne_empty_of_isValid hvalid), if_pos hvalid]

/-- The value of the term is the stored text. -/
theorem value_eq_quoteValue {record : Record} {term : Term} (hterm : record.toTerm = .ok term)
    {text : String} (htext : record.valueText = .ok text) : term.value = quoteValue text := by
  obtain ⟨text', relation, htext', -, ⟨-, rfl⟩ | ⟨-, rfl⟩⟩ := toTerm_eq_ok_iff.1 hterm
  · rw [htext, Except.ok.injEq] at htext'
    rw [htext']
    rfl
  · rw [htext, Except.ok.injEq] at htext'
    rw [htext']
    rfl

/-! ## Canonical terms -/

/-- What a record and the text of its value must be like for its term to be canonical. -/
structure IsReadable (record : Record) (text : String) : Prop where
  /-- In a value with quotes, all separators stand inside them. -/
  value_isSolid : '"' ∈ text.toList → isSolid false text.toList = true
  /-- A value that stands alone is not empty. -/
  value_ne_empty : record.column = "" → record.relation = "" → text ≠ ""
  /-- What is stored for a value that stands alone is not taken apart at a relation. -/
  value_unmarked : record.column = "" → record.relation = "" →
    ∀ (keyword rest : List Char) (relation : Relation), keyword.all Keyword.isChar = true →
      (quoteValue text).toList ≠ keyword ++ relation.toChar :: rest

/-- Whether a record is readable can be found out by taking its value apart. -/
instance (record : Record) (text : String) : Decidable (record.IsReadable text) :=
  decidable_of_iff
    (('"' ∈ text.toList → isSolid false text.toList = true) ∧
      (record.column = "" → record.relation = "" → text ≠ "") ∧
      (record.column = "" → record.relation = "" →
        Scanner.marker? (quoteValue text).toList = none)) <| by
    simp only [Scanner.marker?_eq_none_iff]
    constructor
    · rintro ⟨hsolid, hne, hunmarked⟩
      exact ⟨hsolid, hne, hunmarked⟩
    · rintro ⟨hsolid, hne, hunmarked⟩
      exact ⟨hsolid, hne, hunmarked⟩

/-- The words that connect terms are canonical without a relation. -/
theorem isCanonical_connective : ∀ word ∈ connectives, (Term.bare none word).IsCanonical := by
  decide

/-- **The records whose terms are canonical.**

**Proof sketch.** With a column only the value matters. Without one, a relation that is given stays
before the value, except before a connective, which is canonical without it. -/
theorem isCanonical_iff {record : Record} {term : Term} (hterm : record.toTerm = .ok term)
    {text : String} (htext : record.valueText = .ok text) :
    term.IsCanonical ↔ record.IsReadable text := by
  have hsolid : isSolid false (quoteValue text).toList = true ↔
      ('"' ∈ text.toList → isSolid false text.toList = true) :=
    KeywordValue.isSolid_stored_iff (.text text)
  obtain ⟨text', relation, htext', hrelation, hterm⟩ := toTerm_eq_ok_iff.1 hterm
  rw [htext, Except.ok.injEq] at htext'
  subst htext'
  have hnone := eq_none_iff_of_relation? hrelation
  rcases hterm with ⟨hcolumn, rfl⟩ | ⟨hvalid, rfl⟩
  · by_cases hconnective : relation = some .approx ∧ quoteValue text ∈ connectives
    · -- the term has lost a relation that the record still gives, so only the value is asked for
      have hcanonical := isCanonical_connective _ hconnective.2
      have hgiven : record.relation ≠ "" := by
        rw [← hnone.ne, hconnective.1]
        simp
      rw [bareRelation, if_pos hconnective]
      refine iff_of_true hcanonical ⟨hsolid.1 hcanonical.value_isSolid, ?_, ?_⟩
      · intro _ hempty
        contradiction
      · intro _ hempty
        contradiction
    · rw [bareRelation, if_neg hconnective, Term.isCanonical_bare_iff, hsolid, hnone]
      constructor
      · rintro ⟨hvalue, halone⟩
        refine ⟨hvalue, ?_, ?_⟩
        · intro _ hempty
          exact (quoteValue_eq_empty_iff text).ne.1 (halone hempty).1
        · intro _ hempty
          exact (halone hempty).2
      · intro h
        refine ⟨h.value_isSolid, ?_⟩
        intro hempty
        exact ⟨(quoteValue_eq_empty_iff text).ne.2 (h.value_ne_empty hcolumn hempty),
          h.value_unmarked hcolumn hempty⟩
  · have hcolumn := Keyword.ne_empty_of_isValid hvalid
    rw [Term.isCanonical_keyed_iff hvalid, hsolid]
    constructor
    · intro hvalue
      refine ⟨hvalue, ?_, ?_⟩
      · intro hempty
        contradiction
      · intro hempty
        contradiction
    · exact IsReadable.value_isSolid

end Record

/-! ## Lists that are related member by member -/

/-- A property of all members of a list is one of all members of a related list. -/
theorem forall_mem_iff_of_forall₂ {α β : Type} {R : α → β → Prop} {P : α → Prop} {Q : β → Prop}
    (hiff : ∀ a b, R a b → (P a ↔ Q b)) {list : List α} {list' : List β}
    (h : List.Forall₂ R list list') : (∀ a ∈ list, P a) ↔ ∀ b ∈ list', Q b := by
  induction h with
  | nil => simp
  | cons hab _ ih => rw [List.forall_mem_cons, List.forall_mem_cons, hiff _ _ hab, ih]

/-- Related lists stay related without their last members. -/
theorem forall₂_dropLast {α β : Type} {R : α → β → Prop} {list : List α} {list' : List β}
    (h : List.Forall₂ R list list') : List.Forall₂ R list.dropLast list'.dropLast := by
  rw [List.dropLast_eq_take, List.dropLast_eq_take, h.length_eq]
  exact List.forall₂_take _ h

namespace Filter

/-- **The filter of a saved filter with records** has one term for each record, and the identity of
the saved filter; its text plays no part. -/
theorem ofSaved_eq_ok_iff {saved : SavedFilter} {records : Records}
    (hrecords : saved.keywords = some records) {filter : Filter} :
    ofSaved saved = .ok filter ↔
      List.Forall₂ (fun record term => record.toTerm = .ok term) records.toList filter.terms ∧
        filter.id = saved.id ∧ filter.kind = saved.kind ∧ filter.name = saved.name := by
  have hkeywords : saved.hasKeywords = true := by
    rw [SavedFilter.hasKeywords, hrecords]
    rfl
  have hterms : saved.keywordTerms = records.toList.mapM Record.toTerm := by
    rw [SavedFilter.keywordTerms, hrecords]
  simp only [ofSaved, hkeywords, if_true, hterms, Error.bind_eq_ok_iff, Error.mapM_eq_ok_iff]
  constructor
  · rintro ⟨terms, hmembers, h⟩
    cases h
    exact ⟨hmembers, rfl, rfl, rfl⟩
  · rintro ⟨hmembers, hid, hkind, hname⟩
    refine ⟨filter.terms, hmembers, ?_⟩
    rw [← hid, ← hkind, ← hname]

/-- The records whose terms are all canonical. -/
theorem forall_isReadable_iff {records : List Record} {terms : List Term}
    (h : List.Forall₂ (fun record term => record.toTerm = .ok term) records terms) :
    (∀ record ∈ records, ∀ text, record.valueText = .ok text → record.IsReadable text)
      ↔ ∀ term ∈ terms, term.IsCanonical := by
  refine forall_mem_iff_of_forall₂ ?_ h
  intro record term hterm
  obtain ⟨text, -, htext, -⟩ := Record.toTerm_eq_ok_iff.1 hterm
  constructor
  · intro hreadable
    exact (Record.isCanonical_iff hterm htext).2 (hreadable text htext)
  · intro hcanonical text' htext'
    exact (Record.isCanonical_iff hterm htext').1 hcanonical

/-- The records whose terms leave no quote open. -/
theorem forall_even_iff {records : List Record} {terms : List Term}
    (h : List.Forall₂ (fun record term => record.toTerm = .ok term) records terms) :
    (∀ record ∈ records, ∀ text, record.valueText = .ok text → Even (text.toList.count '"'))
      ↔ ∀ term ∈ terms, Quotes.isOpen false term.value.toList = false := by
  refine forall_mem_iff_of_forall₂ ?_ h
  intro record term hterm
  obtain ⟨text, -, htext, -⟩ := Record.toTerm_eq_ok_iff.1 hterm
  constructor
  · intro heven
    rw [Record.value_eq_quoteValue hterm htext, Quotes.isOpen_quoteValue, Quotes.isOpen_eq_false_iff]
    exact heven text htext
  · intro hclosed text' htext'
    rwa [← Quotes.isOpen_eq_false_iff, ← Quotes.isOpen_quoteValue,
      ← Record.value_eq_quoteValue hterm htext']

/-- **When the terms of records are read back.** A saved filter with records is made into a filter.
Its terms are read back from its text if and only if each record is readable and the value of each
but the last one has an even number of quotes. -/
theorem ofString_ofSaved_iff {saved : SavedFilter} {records : Records}
    (hrecords : saved.keywords = some records) {filter : Filter} (h : ofSaved saved = .ok filter) :
    (ofString filter.toFilterString).terms = filter.terms ↔
      (∀ record ∈ records.toList, ∀ text, record.valueText = .ok text → record.IsReadable text) ∧
        ∀ record ∈ records.toList.dropLast, ∀ text, record.valueText = .ok text →
          Even (text.toList.count '"') := by
  obtain ⟨hmembers, -⟩ := (ofSaved_eq_ok_iff hrecords).1 h
  rw [toFilterString, terms_ofString_joinTerms_iff, Term.faithful_iff,
    forall_isReadable_iff hmembers, forall_even_iff (forall₂_dropLast hmembers)]

/-- Records with a connective, a column without a relation, quotes around a separator, a value that
stands alone, and a quote that is left open at the end. -/
theorem ofString_ofSaved_five :
    let records : List Record := [.ofText "" "~" "and", .ofText "name" "" "a b",
      .ofText "note" ":" "\"x y\"z", .ofText "" "" "a.b=c", .ofText "size" ">" "5\""]
    let saved : SavedFilter := ⟨some "7", none, none, some "unread", some (.many records)⟩
    let filter : Filter := ⟨[.bare none "and", .keyed "name" .equal "\"a b\"",
      .keyed "note" .tag "\"x y\"z", .bare none "a.b=c", .keyed "size" .greater "5\""],
      some "7", none, none⟩
    saved.keywords = some (.many records) ∧ ofSaved saved = .ok filter ∧
      (ofString filter.toFilterString).terms = filter.terms := by
  intro records saved filter
  have hrecords : saved.keywords = some (.many records) := rfl
  have h : ofSaved saved = .ok filter := by rfl
  refine ⟨hrecords, h, (ofString_ofSaved_iff hrecords h).2 ⟨?_, ?_⟩⟩
  · intro record hrecord text htext
    simp only [records, Records.toList, List.mem_cons, List.not_mem_nil, or_false] at hrecord
    rcases hrecord with rfl | rfl | rfl | rfl | rfl
    all_goals
      cases htext
      decide
  · intro record hrecord text htext
    simp only [records, Records.toList, List.dropLast_cons_cons, List.dropLast_singleton,
      List.mem_cons, List.not_mem_nil, or_false] at hrecord
    rcases hrecord with rfl | rfl | rfl | rfl
    all_goals
      cases htext
      decide

/-- What is made of records is not always read back: a value that stands alone may be empty, and
then nothing is written for it. -/
theorem not_forall_ofString_ofSaved :
    ¬ ∀ (saved : SavedFilter) (filter : Filter), saved.hasKeywords = true →
      ofSaved saved = .ok filter → (ofString filter.toFilterString).terms = filter.terms := by
  intro h
  have hread := h ⟨none, none, none, none, some (.one (.ofText "" "" ""))⟩
    (.ofTerms [.bare none ""]) rfl rfl
  revert hread
  decide +kernel

end Filter

end QueryFilter
