import QueryFilter.Proofs.Editing

set_option relaxedAutoImplicit false
set_option autoImplicit false

/-!
# Runs of safe edits

A filter that is read from a text with all of its quotes closed stays readable while it is edited, as
long as no value is written that leaves a quote open or has a separator beside its quotes. What the
edits keep is stronger than being read back: every term could stand anywhere among others.

## Main definitions

* `QueryFilter.Quotes.IsSealed`, `QueryFilter.Quotes.IsSafe` — texts that can stand anywhere, and
  those that can once they are stored.
* `QueryFilter.Term.IsWhole` — terms that can stand anywhere among others.
* `QueryFilter.Edit.IsSafe` — edits that write safe values.
* `QueryFilter.Filter.SafelyEdited` — filters that come from a text by safe edits.

## Main results

* `QueryFilter.Quotes.isSealed_quoteValue_iff` — safe values are those that are sealed when stored.
* `QueryFilter.Filter.forall_isWhole_apply` — a safe edit keeps all terms whole.
* `QueryFilter.Filter.SafelyEdited.forall_isWhole` — so does every run of them.
* `QueryFilter.Filter.ofString_toFilterString_applyAll` — what is read back after each step of a run.
-/

namespace QueryFilter

namespace Quotes

/-- A text that can stand anywhere: no separator of it stands outside quotes, and no quote of it is
left open. -/
def IsSealed (text : List Char) : Prop :=
  isSolid false text = true ∧ isOpen false text = false

/-- A text that is safe to store: it has no quote at all, or an even number of them with all of its
separators inside. -/
def IsSafe (text : List Char) : Prop :=
  '"' ∉ text ∨ Even (text.count '"') ∧ isSolid false text = true

instance (text : List Char) : Decidable (IsSafe text) :=
  inferInstanceAs (Decidable (_ ∨ _))

/-- **The safe values are those that are sealed when they are stored.** -/
theorem isSealed_quoteValue_iff (value : String) :
    IsSealed (quoteValue value).toList ↔ IsSafe value.toList := by
  rw [IsSealed, IsSafe, isSolid_quoteValue_iff, isOpen_quoteValue, any_isQuote_eq_false_iff,
    ← isOpen_eq_false_iff]
  constructor
  · rintro ⟨hnone | hsolid, hopen⟩
    · exact .inl hnone
    · exact .inr ⟨hopen, hsolid⟩
  · rintro (hnone | ⟨hopen, hsolid⟩)
    · have hany := (any_isQuote_eq_false_iff value.toList).2 hnone
      exact ⟨.inl hnone, isOpen_of_not_any_isQuote hany false⟩
    · exact ⟨.inr hsolid, hopen⟩

/-- A sealed text stays sealed when it is stored. -/
theorem IsSealed.quoteValue {value : String} (h : IsSealed value.toList) :
    IsSealed (quoteValue value).toList := by
  rw [isSealed_quoteValue_iff]
  exact .inr ⟨(isOpen_eq_false_iff _).1 h.2, h.1⟩

end Quotes

namespace KeywordValue

/-- Numbers are safe to store, and texts when they are safe. -/
def IsSafe : KeywordValue → Prop
  | number _ => True
  | text value => Quotes.IsSafe value.toList

instance : (value : KeywordValue) → Decidable value.IsSafe
  | .number _ => inferInstanceAs (Decidable True)
  | .text value => inferInstanceAs (Decidable (Quotes.IsSafe value.toList))

/-- The text of a number is sealed. -/
theorem isSealed_ofInt64 (n : Int64) : Quotes.IsSealed (Text.Decimal.ofInt64 n).toList :=
  ⟨isSolid_ofInt64 n, isOpen_ofInt64 n⟩

/-- What is stored for a safe value is sealed. -/
theorem IsSafe.isSealed_stored {value : KeywordValue} (h : value.IsSafe) :
    Quotes.IsSealed value.stored.toList := by
  cases value with
  | number n => exact isSealed_ofInt64 n
  | text value => exact (Quotes.isSealed_quoteValue_iff value).2 h

end KeywordValue

namespace Term

/-- A term that can stand anywhere among others: it is canonical and leaves no quote open. -/
structure IsWhole (term : Term) : Prop where
  isCanonical : term.IsCanonical
  value_closed : Quotes.isOpen false term.value.toList = false

/-- The value of a whole term is sealed. -/
theorem IsWhole.isSealed_value {term : Term} (h : term.IsWhole) :
    Quotes.IsSealed term.value.toList :=
  ⟨h.isCanonical.value_isSolid, h.value_closed⟩

/-- A term that is made for a valid keyword is whole when its value is sealed. -/
theorem isWhole_keyed {keyword : String} (hk : Keyword.isValid keyword = true)
    (relation : Relation) {value : String} (h : Quotes.IsSealed value.toList) :
    (keyed keyword relation value).IsWhole :=
  ⟨(isCanonical_keyed_iff hk relation value).2 h.1, h.2⟩

/-- What is taken over from a whole term is whole. -/
theorem IsWhole.of_comesFrom {source term : Term} (h : source.IsWhole)
    (hfrom : source.ComesFrom term) : term.IsWhole := by
  obtain ⟨keyword, hkeyword, rfl | rfl⟩ := hfrom
  · exact h
  · exact isWhole_keyed (h.isCanonical.keyword_isValid keyword hkeyword).1 _ h.isSealed_value

/-- Whole terms are faithful in any number and order. -/
theorem faithful_of_isWhole {terms : List Term} (h : ∀ term ∈ terms, term.IsWhole) :
    Faithful terms := by
  rw [faithful_iff]
  constructor
  · intro term hterm
    exact (h term hterm).isCanonical
  · intro term hterm
    exact (h term (List.dropLast_subset terms hterm)).value_closed

end Term

namespace Edit

/-- An edit that writes safe values. What it takes over from another filter is another matter. -/
def IsSafe : Edit → Prop
  | .set _ value _ => value.IsSafe
  | .setSortBy field => Quotes.IsSafe field.toList
  | .delete _ | .setSortOrder _ | .mergeKeywords _ | .next _ | .previous _ | .firstPage | .allRows
  | .simple => True

instance : (edit : Edit) → Decidable edit.IsSafe
  | .set _ value _ => inferInstanceAs (Decidable value.IsSafe)
  | .setSortBy field => inferInstanceAs (Decidable (Quotes.IsSafe field.toList))
  | .delete _ | .setSortOrder _ | .mergeKeywords _ | .next _ | .previous _ | .firstPage | .allRows
  | .simple => inferInstanceAs (Decidable True)

end Edit

namespace Filter

/-- The filters that come from a text with an even number of quotes by safe edits; another filter
that is merged on the way comes about in the same manner. -/
inductive SafelyEdited : Filter → Prop
  | ofString (text : String) (htext : Even (text.toList.count '"')) : SafelyEdited (ofString text)
  | apply {filter : Filter} {edit : Edit} (h : SafelyEdited filter) (hsafe : edit.IsSafe)
      (hmerged : ∀ other, edit = .mergeKeywords other → SafelyEdited other) :
      SafelyEdited (filter.apply edit)

/-! ## One edit -/

/-- The field that a filter of whole terms sorts by is sealed. -/
theorem isSealed_of_sortBy? {filter : Filter} (h : ∀ term ∈ filter.terms, term.IsWhole)
    {field : String} (hfield : filter.sortBy? = some field) : Quotes.IsSealed field.toList := by
  obtain ⟨term, hterm, rfl⟩ := Option.map_eq_some_iff.1 hfield
  exact (h term (List.mem_of_find?_eq_some hterm)).isSealed_value

/-- What a safe edit writes is whole, when all terms of the filter are and those of a filter that is
merged. -/
theorem isWhole_of_writes {filter : Filter} (h : ∀ term ∈ filter.terms, term.IsWhole) {edit : Edit}
    (hsafe : edit.IsSafe)
    (hmerged : ∀ other, edit = .mergeKeywords other → ∀ term ∈ other.terms, term.IsWhole)
    {term : Term} (hwrites : edit.Writes filter term) : term.IsWhole := by
  have hfirst : Keyword.isValid Keyword.first = true := by decide
  cases edit with
  | set keyword value relation =>
    obtain ⟨hk, rfl⟩ := hwrites
    exact Term.isWhole_keyed hk relation hsafe.isSealed_stored
  | delete keyword => contradiction
  | setSortBy field =>
    obtain ⟨order, rfl⟩ := hwrites
    exact Term.isWhole_keyed order.isValid_keyword .equal ((Quotes.isSealed_quoteValue_iff field).2 hsafe)
  | setSortOrder order =>
    -- the field is quoted again, which a sealed text withstands
    obtain ⟨field, hfield, rfl⟩ := hwrites
    exact Term.isWhole_keyed order.isValid_keyword .equal (isSealed_of_sortBy? h hfield).quoteValue
  | mergeKeywords other =>
    obtain ⟨source, hsource, hfrom⟩ := hwrites
    exact (hmerged other rfl source hsource).of_comesFrom hfrom
  | next _ | previous _ | firstPage =>
    obtain ⟨n, rfl⟩ := hwrites
    exact Term.isWhole_keyed hfirst .equal (KeywordValue.isSealed_ofInt64 n)
  | allRows =>
    obtain ⟨keyword, n, hkeyword, rfl⟩ := hwrites
    have hk : Keyword.isValid keyword = true := by
      rcases hkeyword with rfl | rfl <;> decide
    exact Term.isWhole_keyed hk .equal (KeywordValue.isSealed_ofInt64 n)
  | simple => contradiction

/-- **A safe edit keeps all terms whole.** -/
theorem forall_isWhole_apply {filter : Filter} (h : ∀ term ∈ filter.terms, term.IsWhole)
    {edit : Edit} (hsafe : edit.IsSafe)
    (hmerged : ∀ other, edit = .mergeKeywords other → ∀ term ∈ other.terms, term.IsWhole) :
    ∀ term ∈ (filter.apply edit).terms, term.IsWhole :=
  forall_mem_terms_apply h fun _ hwrites => isWhole_of_writes h hsafe hmerged hwrites

/-! ## Runs of edits -/

/-- The terms of a text with an even number of quotes are whole. -/
theorem forall_isWhole_ofString {text : String} (htext : Even (text.toList.count '"')) :
    ∀ term ∈ (ofString text).terms, term.IsWhole := by
  intro term hterm
  have hcanonical := (faithful_terms_ofString text).isCanonical term hterm
  have hclosed := (closed_terms_ofString_iff text).2 ((Quotes.isOpen_eq_false_iff _).2 htext)
  refine ⟨hcanonical, ?_⟩
  rw [← hcanonical.isOpen_render]
  exact hclosed term hterm

namespace SafelyEdited

/-- All terms of a safely edited filter are whole. -/
theorem forall_isWhole {filter : Filter} (h : SafelyEdited filter) :
    ∀ term ∈ filter.terms, term.IsWhole := by
  induction h with
  | ofString text htext => exact forall_isWhole_ofString htext
  | apply _ hsafe _ ih ihMerged => exact forall_isWhole_apply ih hsafe ihMerged

/-- A run of safe edits leads from a safely edited filter to one. -/
theorem applyAll {filter : Filter} (h : SafelyEdited filter) {edits : List Edit}
    (hsafe : ∀ edit ∈ edits, edit.IsSafe)
    (hmerged : ∀ edit ∈ edits, ∀ other, edit = .mergeKeywords other → SafelyEdited other) :
    SafelyEdited (filter.applyAll edits) := by
  induction edits generalizing filter with
  | nil => exact h
  | cons edit edits ih =>
    rw [List.forall_mem_cons] at hsafe hmerged
    exact ih (h.apply hsafe.1 hmerged.1) hsafe.2 hmerged.2

end SafelyEdited

/-- **Safe edits keep a filter readable.** A text with an even number of quotes is read and then
edited: values that are set and fields that are sorted by are safe, and filters that are merged come
about in the same manner. After each step of such a run, the terms of the filter are read back from
its text. -/
theorem ofString_toFilterString_applyAll {text : String} (htext : Even (text.toList.count '"'))
    {edits : List Edit} (hsafe : ∀ edit ∈ edits, edit.IsSafe)
    (hmerged : ∀ edit ∈ edits, ∀ other, edit = .mergeKeywords other → SafelyEdited other)
    (steps : Nat) :
    (ofString ((ofString text).applyAll (edits.take steps)).toFilterString).terms
      = ((ofString text).applyAll (edits.take steps)).terms := by
  have hedited : SafelyEdited ((ofString text).applyAll (edits.take steps)) := by
    refine (SafelyEdited.ofString text htext).applyAll ?_ ?_
    · intro edit hedit
      exact hsafe edit (List.mem_of_mem_take hedit)
    · intro edit hedit
      exact hmerged edit (List.mem_of_mem_take hedit)
  rw [toFilterString, terms_ofString_joinTerms_iff]
  exact Term.faithful_of_isWhole hedited.forall_isWhole

/-- A run that sets a value with a space, sorts by a field with one, merges a filter and goes to the
next page, in a text with a quoted value and a bare word. -/
theorem ofString_toFilterString_applyAll_four :
    let edits : List Edit := [.set "name" (.text "c d") .approx, .setSortBy "due date",
      .mergeKeywords (ofString "note=\"e f\" first=9"), .next .default]
    let filter := (ofString "name=\"a b\" word rows=5").applyAll (edits.take 4)
    Even ("name=\"a b\" word rows=5".toList.count '"') ∧ (∀ edit ∈ edits, edit.IsSafe) ∧
      (∀ edit ∈ edits, ∀ other, edit = .mergeKeywords other → SafelyEdited other) ∧
      (ofString filter.toFilterString).terms = filter.terms := by
  intro edits filter
  have htext : Even ("name=\"a b\" word rows=5".toList.count '"') := by decide
  have hsafe : ∀ edit ∈ edits, edit.IsSafe := by decide +zetaReduce
  have hmerged : ∀ edit ∈ edits, ∀ other, edit = .mergeKeywords other → SafelyEdited other := by
    have hother : SafelyEdited (ofString "note=\"e f\" first=9") := .ofString _ (by decide)
    simpa [edits] using hother
  exact ⟨htext, hsafe, hmerged, ofString_toFilterString_applyAll htext hsafe hmerged 4⟩

end Filter

end QueryFilter
