import QueryFilter.Proofs.Recording

set_option relaxedAutoImplicit false
set_option autoImplicit false

/-!
# Which records are made into terms

A record is checked in three places, and they come in a fixed order: its value, its relation, and its
column. The records of a saved filter are checked one after the other, so that a saved filter with wrong
records fails with the first fault of the first of them. If all records are right, each gives one term,
whose parts can be told from those of the record.

## Main definitions

* `QueryFilter.Record.IsConvertible` — records that are right in all three places.
* `QueryFilter.Record.Fails` — a record fails with an error, its first one.
* `QueryFilter.Record.Describes` — a record describes a term, part by part.

## Main results

* `QueryFilter.Record.toTerm_eq_error_iff` — the errors of records.
* `QueryFilter.Record.exists_toTerm_eq_ok_iff` — the records that have none.
* `QueryFilter.Record.toTerm_eq_ok_iff_describes` — the terms that records are made into.
* `QueryFilter.Filter.ofSaved_eq_error_iff` — the errors of saved filters with records.
* `QueryFilter.Filter.conversion_of_records` — saved filters with records in full.
-/

namespace QueryFilter

/-- Whether a value is a scalar: anything but an array or an object. -/
def Json.Value.isScalar : Json.Value → Bool
  | .array _ | .object _ => false
  | .null | .bool _ | .number _ | .string _ => true

namespace Record

/-! ## Faults -/

/-- A record that can be made into a term. -/
structure IsConvertible (record : Record) : Prop where
  /-- The value is no array or object. -/
  value_isScalar : record.value.isScalar = true
  /-- The relation is empty, or one of the five markers. -/
  relation_isMarker : record.relation = "" ∨ record.relation ∈ Relation.all.map Relation.render
  /-- The column is empty, or consists of keyword characters. -/
  column_isKeyword : record.column = "" ∨ Keyword.isValid record.column = true

/-- A record fails with an error. Its value is checked before its relation, and its relation before its
column. -/
inductive Fails (record : Record) : Error → Prop where
  /-- The value is an array or an object. -/
  | value (hvalue : record.value.isScalar = false) :
    Fails record (.invalidValue record.column record.value)
  /-- The value is a scalar, and the relation is none of the markers. -/
  | relation (hvalue : record.value.isScalar = true) (hgiven : record.relation ≠ "")
    (hmarker : record.relation ∉ Relation.all.map Relation.render) :
    Fails record (.unknownRelation record.relation)
  /-- The value is a scalar and the relation a marker or empty, and the column cannot be a keyword. -/
  | column (hvalue : record.value.isScalar = true)
    (hrelation : record.relation = "" ∨ record.relation ∈ Relation.all.map Relation.render)
    (hgiven : record.column ≠ "") (hkeyword : Keyword.isValid record.column = false) :
    Fails record (.invalidKeyword record.column)

variable {record : Record} {error : Error}

/-- A record can be made into a term when it does not fail. -/
theorem isConvertible_iff_forall_not_fails :
    record.IsConvertible ↔ ∀ error, ¬ record.Fails error := by
  constructor
  · rintro ⟨hvalue, hrelation, hcolumn⟩ error herror
    cases herror with
    | value hnested => simp [hvalue] at hnested
    | relation _ hgiven hmarker => exact hrelation.elim hgiven hmarker
    | column _ _ hgiven hkeyword => exact hcolumn.elim hgiven (by simp [hkeyword])
  · intro h
    have hvalue : record.value.isScalar = true := by
      by_contra hnested
      exact h _ (.value (by simpa using hnested))
    have hrelation : record.relation = "" ∨ record.relation ∈ Relation.all.map Relation.render := by
      by_contra hwrong
      rw [not_or] at hwrong
      exact h _ (.relation hvalue hwrong.1 hwrong.2)
    refine ⟨hvalue, hrelation, ?_⟩
    by_contra hwrong
    rw [not_or] at hwrong
    exact h _ (.column hvalue hrelation hwrong.1 (by simpa using hwrong.2))

/-- A value that is no scalar has no text. -/
theorem valueText_eq_error_iff :
    record.valueText = .error error ↔
      record.value.isScalar = false ∧ error = .invalidValue record.column record.value := by
  unfold valueText
  cases record.value with
  | null | number _ | string _ => simp [Json.Value.isScalar]
  | bool value => cases value <;> simp [Json.Value.isScalar]
  | array _ | object _ => simp [Json.Value.isScalar, eq_comm]

/-- A scalar has a text. -/
theorem exists_valueText_eq_ok_iff :
    (∃ text, record.valueText = .ok text) ↔ record.value.isScalar = true := by
  rw [Error.exists_eq_ok_iff]
  simp [valueText_eq_error_iff]

/-- A relation that is given is one of the markers, or an error. -/
theorem relation?_eq_error_iff :
    record.relation? = .error error ↔
      record.relation ≠ "" ∧ record.relation ∉ Relation.all.map Relation.render ∧
        error = .unknownRelation record.relation := by
  unfold relation?
  split
  · next hempty => simp [hempty]
  · next hgiven =>
    rw [← Relation.parse_eq_error_iff]
    cases Relation.parse record.relation with
    | ok relation => simp [Except.map]
    | error found => simp [Except.map, hgiven]

/-- A relation that is empty or a marker is right. -/
theorem exists_relation?_eq_ok_iff :
    (∃ relation, record.relation? = .ok relation) ↔
      record.relation = "" ∨ record.relation ∈ Relation.all.map Relation.render := by
  simp only [Error.exists_eq_ok_iff, ne_eq, relation?_eq_error_iff]
  constructor
  · intro h
    by_contra hwrong
    rw [not_or] at hwrong
    exact h _ ⟨hwrong.1, hwrong.2, rfl⟩
  · rintro hright fault ⟨hgiven, hnone, -⟩
    exact hright.elim hgiven hnone

/-- A relation that is the text of a marker is that marker. -/
theorem relation?_of_eq_render {relation : Relation} (h : record.relation = relation.render) :
    record.relation? = .ok (some relation) := by
  have hgiven : record.relation ≠ "" := by
    rw [h]
    cases relation <;> decide
  rw [relation?, if_neg hgiven, Relation.parse, Relation.ofString?_eq_some_iff.2 h]
  rfl

/-- **The errors of records.** A record fails with its first fault: that of its value, of its relation
if the value is right, and of its column if both are. -/
theorem toTerm_eq_error_iff : record.toTerm = .error error ↔ record.Fails error := by
  unfold toTerm
  simp only [Error.bind_eq_error_iff]
  constructor
  · rintro (hvalue | ⟨text, htext, hrelation | ⟨relation, hrelation, hcolumn⟩⟩)
    · obtain ⟨hnested, rfl⟩ := valueText_eq_error_iff.1 hvalue
      exact .value hnested
    · obtain ⟨hgiven, hmarker, rfl⟩ := relation?_eq_error_iff.1 hrelation
      exact .relation (exists_valueText_eq_ok_iff.1 ⟨text, htext⟩) hgiven hmarker
    · split at hcolumn
      · contradiction
      · next hgiven =>
        split at hcolumn
        · contradiction
        · next hkeyword =>
          cases hcolumn
          exact .column (exists_valueText_eq_ok_iff.1 ⟨text, htext⟩)
            (exists_relation?_eq_ok_iff.1 ⟨relation, hrelation⟩) hgiven (by simpa using hkeyword)
  · intro h
    cases h with
    | value hnested => exact .inl (valueText_eq_error_iff.2 ⟨hnested, rfl⟩)
    | relation hvalue hgiven hmarker =>
      obtain ⟨text, htext⟩ := exists_valueText_eq_ok_iff.2 hvalue
      exact .inr ⟨text, htext, .inl (relation?_eq_error_iff.2 ⟨hgiven, hmarker, rfl⟩)⟩
    | column hvalue hrelation hgiven hkeyword =>
      obtain ⟨text, htext⟩ := exists_valueText_eq_ok_iff.2 hvalue
      obtain ⟨relation, hrelation⟩ := exists_relation?_eq_ok_iff.2 hrelation
      refine .inr ⟨text, htext, .inr ⟨relation, hrelation, ?_⟩⟩
      rw [if_neg hgiven, if_neg (by simp [hkeyword])]

/-- **The records that have no error** are those that are right in all three places. -/
theorem exists_toTerm_eq_ok_iff : (∃ term, record.toTerm = .ok term) ↔ record.IsConvertible := by
  rw [Error.exists_eq_ok_iff, isConvertible_iff_forall_not_fails]
  simp only [ne_eq, toTerm_eq_error_iff]

/-! ## Terms -/

/-- Quoting leaves the words that connect terms alone, and makes no other text one of them. -/
theorem quoteValue_mem_connectives_iff {text : String} :
    quoteValue text ∈ connectives ↔ text ∈ connectives := by
  have hsimple : ∀ word ∈ connectives,
      word.toList.any isSeparator = false ∧ word.toList.any isQuote = false := by
    decide
  constructor
  · intro h
    have hself : quoteValue text = text := by
      by_contra hquoted
      rw [quoteValue_eq_self_iff, Classical.not_imp, Bool.not_eq_true] at hquoted
      have hstored := (hsimple _ h).2
      rw [quoteValue, if_pos (by simp [hquoted])] at hstored
      simp [isQuote] at hstored
    rwa [← hself]
  · intro h
    rwa [quoteValue_of_not_any_isSeparator (hsimple text h).1]

/-- A record describes a term. -/
structure Describes (record : Record) (term : Term) : Prop where
  /-- The record is right in all three places. -/
  isConvertible : record.IsConvertible
  /-- The keyword of the term is the column, and an empty column is none. -/
  keyword_eq : term.keyword = if record.column = "" then none else some record.column
  /-- The value of the term is the text of the value, in quotes if it has to be. -/
  value_eq : ∀ text, record.valueText = .ok text → term.value = quoteValue text
  /-- If no relation is given, then the term says equality, or nothing if it is bare. -/
  relation_eq_of_empty :
    record.relation = "" → term.relation = if record.column = "" then none else some .equal
  /-- A relation that is given is the one of the term. Only a bare connective loses the approximate
  one. -/
  relation_eq_of_given : ∀ relation text,
    record.relation = relation.render → record.valueText = .ok text →
      term.relation = if record.column = "" ∧ relation = .approx ∧ text ∈ connectives then none
        else some relation

/-- A record that is made into a term describes it. -/
theorem describes_of_toTerm {term : Term} (h : record.toTerm = .ok term) :
    record.Describes term := by
  obtain ⟨text, relation, htext, hrelation, hterm⟩ := toTerm_eq_ok_iff.1 h
  refine ⟨exists_toTerm_eq_ok_iff.1 ⟨term, h⟩, ?keyword, ?value, ?empty, ?given⟩
  case keyword =>
    rcases hterm with ⟨hcolumn, rfl⟩ | ⟨hvalid, rfl⟩
    · rw [if_pos hcolumn, Term.bare]
    · rw [if_neg (Keyword.ne_empty_of_isValid hvalid), Term.keyword_keyed hvalid]
  case value =>
    intro text htext
    exact value_eq_quoteValue h htext
  case empty =>
    intro hempty
    have hnone := (eq_none_iff_of_relation? hrelation).2 hempty
    subst hnone
    rcases hterm with ⟨hcolumn, rfl⟩ | ⟨hvalid, rfl⟩
    · simp [hcolumn, Term.bare, bareRelation]
    · simp [Keyword.ne_empty_of_isValid hvalid, Term.keyed]
  case given =>
    intro given text' hgiven htext'
    rw [relation?_of_eq_render hgiven, Except.ok.injEq] at hrelation
    rw [htext, Except.ok.injEq] at htext'
    subst hrelation htext'
    rcases hterm with ⟨hcolumn, rfl⟩ | ⟨hvalid, rfl⟩
    · simp [hcolumn, Term.bare, bareRelation, quoteValue_mem_connectives_iff]
    · simp [Keyword.ne_empty_of_isValid hvalid, Term.keyed]

/-- A record describes one term only. -/
theorem Describes.eq {term term' : Term} (h : record.Describes term) (h' : record.Describes term') :
    term = term' := by
  obtain ⟨text, htext⟩ := exists_valueText_eq_ok_iff.2 h.isConvertible.value_isScalar
  ext1
  · rw [h.keyword_eq, h'.keyword_eq]
  · rcases h.isConvertible.relation_isMarker with hempty | hmarker
    · rw [h.relation_eq_of_empty hempty, h'.relation_eq_of_empty hempty]
    · obtain ⟨relation, -, hrelation⟩ := List.mem_map.1 hmarker
      rw [h.relation_eq_of_given relation text hrelation.symm htext,
        h'.relation_eq_of_given relation text hrelation.symm htext]
  · rw [h.value_eq text htext, h'.value_eq text htext]

/-- **The terms that records are made into** are those that they describe. -/
theorem toTerm_eq_ok_iff_describes {term : Term} :
    record.toTerm = .ok term ↔ record.Describes term := by
  constructor
  · exact describes_of_toTerm
  · intro h
    obtain ⟨found, hfound⟩ := exists_toTerm_eq_ok_iff.2 h.isConvertible
    rw [hfound, (describes_of_toTerm hfound).eq h]

end Record

namespace Filter

/-! ## Saved filters with records -/

variable {saved : SavedFilter} {records : Records}

/-- **The errors of saved filters with records.** The records before the one that fails are all
right. -/
theorem ofSaved_eq_error_iff (hrecords : saved.keywords = some records) {error : Error} :
    ofSaved saved = .error error ↔
      ∃ before record after, records.toList = before ++ record :: after ∧
        (∀ earlier ∈ before, earlier.IsConvertible) ∧ record.Fails error := by
  have hkeywords : saved.hasKeywords = true := by
    rw [SavedFilter.hasKeywords, hrecords]
    rfl
  have hterms : saved.keywordTerms = records.toList.mapM Record.toTerm := by
    rw [SavedFilter.keywordTerms, hrecords]
  simp only [ofSaved, hkeywords, if_true, hterms, Error.bind_eq_error_iff, Error.mapM_eq_error_iff,
    Record.exists_toTerm_eq_ok_iff, Record.toTerm_eq_error_iff, reduceCtorEq, and_false,
    exists_false, or_false]

/-- There is a filter when all records can be made into terms. -/
theorem exists_ofSaved_eq_ok_iff (hrecords : saved.keywords = some records) :
    (∃ filter, ofSaved saved = .ok filter) ↔
      ∀ record ∈ records.toList, record.IsConvertible := by
  cases hsaved : ofSaved saved with
  | ok filter =>
    refine iff_of_true ⟨filter, rfl⟩ ?_
    obtain ⟨hmembers, -⟩ := (ofSaved_eq_ok_iff hrecords).1 hsaved
    have hconvertible (record : Record) (term : Term) (hterm : record.toTerm = .ok term) :
        record.IsConvertible ↔ True :=
      iff_of_true (Record.exists_toTerm_eq_ok_iff.1 ⟨term, hterm⟩) trivial
    exact (forall_mem_iff_of_forall₂ hconvertible hmembers).2 fun _ _ => trivial
  | error error =>
    obtain ⟨before, record, after, hlist, -, hfails⟩ := (ofSaved_eq_error_iff hrecords).1 hsaved
    refine iff_of_false (by simp) ?_
    intro hall
    have hright := hall record (by simp [hlist])
    exact Record.isConvertible_iff_forall_not_fails.1 hright error hfails

/-- The text of a saved filter with records plays no part. -/
theorem ofSaved_term (hrecords : saved.keywords = some records) (text : Option String) :
    ofSaved { saved with term := text } = ofSaved saved := by
  simp [ofSaved, SavedFilter.hasKeywords, SavedFilter.keywordTerms, hrecords]

/-- **Saved filters with records in full.**

* There is a filter if and only if all records can be made into terms.
* Otherwise the error is that of the first record that fails.
* A filter has one term for each record, in order and described by it, and the identity that was
  saved.
* The text that was saved is ignored. -/
theorem conversion_of_records (hrecords : saved.keywords = some records) :
    ((∃ filter, ofSaved saved = .ok filter) ↔ ∀ record ∈ records.toList, record.IsConvertible) ∧
      (∀ error, ofSaved saved = .error error ↔
        ∃ before record after, records.toList = before ++ record :: after ∧
          (∀ earlier ∈ before, earlier.IsConvertible) ∧ record.Fails error) ∧
      (∀ filter, ofSaved saved = .ok filter ↔
        List.Forall₂ Record.Describes records.toList filter.terms ∧
          filter.id = saved.id ∧ filter.kind = saved.kind ∧ filter.name = saved.name) ∧
      ∀ text, ofSaved { saved with term := text } = ofSaved saved := by
  refine ⟨exists_ofSaved_eq_ok_iff hrecords, fun error => ofSaved_eq_error_iff hrecords, ?_,
    ofSaved_term hrecords⟩
  intro filter
  rw [ofSaved_eq_ok_iff hrecords]
  simp only [Record.toTerm_eq_ok_iff_describes]

/-- A connective, a number without a relation, a truth value and a text with a separator are made into
terms. Of the two wrong records behind them, only the relation of the first one is reported: neither
its column nor the value of the second one. -/
theorem conversion_of_records_four :
    let right : List Record := [.ofText "" "~" "and", ⟨"rows", "", .number (.integer 10)⟩,
      ⟨"seen", ">", .bool true⟩, .ofText "name" "" "a b"]
    let wrong : List Record := [⟨"two words", "!", .null⟩, ⟨"size", "=", .array []⟩]
    let saved (records : List Record) : SavedFilter :=
      ⟨some "7", some "task", none, some "unread", some (.many records)⟩
    let filter : Filter := ⟨[.bare none "and", .keyed "rows" .equal "10", .keyed "seen" .greater "1",
      .keyed "name" .equal "\"a b\""], some "7", some "task", none⟩
    (saved right).keywords = some (.many right) ∧
      (saved (right ++ wrong)).keywords = some (.many (right ++ wrong)) ∧
      ofSaved (saved right) = .ok filter ∧ List.Forall₂ Record.Describes right filter.terms ∧
      ofSaved (saved (right ++ wrong)) = .error (.unknownRelation "!") := by
  intro right wrong saved filter
  have hright : ofSaved (saved right) = .ok filter := by rfl
  obtain ⟨hall, -, hterms, -⟩ := conversion_of_records (show (saved right).keywords = _ from rfl)
  obtain ⟨-, herror, -⟩ := conversion_of_records
    (show (saved (right ++ wrong)).keywords = _ from rfl)
  refine ⟨rfl, rfl, hright, ((hterms filter).1 hright).1, (herror _).2 ?_⟩
  exact ⟨right, _, _, rfl, hall.1 ⟨filter, hright⟩, .relation rfl (by decide) (by decide)⟩

end Filter

end QueryFilter
