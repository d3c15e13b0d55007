import QueryFilter.Filter.Keywords
import QueryFilter.Proofs.RoundTrip

set_option relaxedAutoImplicit false
set_option autoImplicit false

/-!
# Setting a keyword, writing and reading back

A filter that was read from a text stays faithful when a keyword is set, unless the quotes get in
the way: a value with quotes in it is stored as it is, and a quote that the text left open swallows
the term that is put after it. This file finds out exactly when the terms in memory are those that
are read back.

## Main definitions

* `QueryFilter.Term.before`, `QueryFilter.Term.after` — the terms on both sides of the first one
  with a keyword.

## Main results

* `QueryFilter.Filter.terms_set` — the terms after a keyword is set.
* `QueryFilter.Term.faithful_append_cons_iff` — when a list with a given term in it is faithful.
* `QueryFilter.Filter.faithful_set_iff` — when a faithful filter stays faithful.
* `QueryFilter.Filter.ofString_set_iff` — when what is set is read back, with quotes counted.
-/

namespace QueryFilter

namespace KeywordValue

open Quotes

/-- The text of a number has keyword characters only. -/
theorem all_isChar_ofInt64 (n : Int64) :
    (Text.Decimal.ofInt64 n).toList.all Keyword.isChar = true := by
  rw [List.all_eq_true, Text.Decimal.ofInt64, String.toList_ofList]
  intro c hc
  rcases Text.Decimal.eq_minus_or_isDigit_of_mem_ofInt hc with rfl | hdigit
  · decide
  · simp [Keyword.isChar, Char.isAlphanum, hdigit]

/-- The text of a number is solid. -/
theorem isSolid_ofInt64 (n : Int64) : isSolid false (Text.Decimal.ofInt64 n).toList = true := by
  apply isSolid_of_not_any_isSeparator
  exact Scanner.not_any_of_all_isChar (fun _ => Scanner.isSeparator_of_isChar)
    (all_isChar_ofInt64 n)

/-- The text of a number leaves no quote open. -/
theorem isOpen_ofInt64 (n : Int64) : isOpen false (Text.Decimal.ofInt64 n).toList = false := by
  apply isOpen_of_not_any_isQuote
  exact Scanner.not_any_of_all_isChar (fun _ => Scanner.isQuote_of_isChar) (all_isChar_ofInt64 n)

/-- A value leaves as many quotes open when it is stored as when it is shown. -/
theorem isOpen_stored (value : KeywordValue) :
    isOpen false value.stored.toList = isOpen false value.display.toList := by
  cases value with
  | number n => rfl
  | text value => exact isOpen_quoteValue value

/-- A stored value is solid when it holds no quote, or when all of its separators stood inside
quotes already. -/
theorem isSolid_stored_iff (value : KeywordValue) :
    isSolid false value.stored.toList = true ↔
      ('"' ∈ value.display.toList → isSolid false value.display.toList = true) := by
  cases value with
  | number n => simp [stored, display, isSolid_ofInt64]
  | text value =>
    rw [stored, display, isSolid_quoteValue_iff, any_isQuote_eq_false_iff, ← imp_iff_not_or]

end KeywordValue

namespace Term

open Quotes

/-! ## Both sides of a keyword -/

/-- The terms before the first one with a keyword; all of them, if none has it. -/
def before (keyword : String) (terms : List Term) : List Term :=
  terms.takeWhile fun term => !term.hasKeyword keyword

/-- The terms after the first one with a keyword; none of them, if none has it. -/
def after (keyword : String) (terms : List Term) : List Term :=
  (terms.dropWhile fun term => !term.hasKeyword keyword).tail

/-- A change puts one term between those before and those after. -/
theorem upsert_eq (keyword : String) (change : Term → Term) (new : Term) (terms : List Term) :
    upsert keyword change new terms
      = before keyword terms
        ++ ((terms.find? (·.hasKeyword keyword)).map change).getD new :: after keyword terms := by
  induction terms with
  | nil => rfl
  | cons term terms ih =>
    unfold upsert before after
    rw [List.find?_cons]
    cases hterm : term.hasKeyword keyword with
    | true => simp [hterm]
    | false => simp [hterm, ih, before, after]

/-- The first term with a keyword stands between those before and those after. -/
theorem before_append_cons_after {keyword : String} {terms : List Term} {term : Term}
    (h : terms.find? (·.hasKeyword keyword) = some term) :
    before keyword terms ++ term :: after keyword terms = terms := by
  induction terms with
  | nil => simp at h
  | cons first terms ih =>
    rw [List.find?_cons] at h
    unfold before after
    rw [List.takeWhile_cons, List.dropWhile_cons]
    cases hfirst : first.hasKeyword keyword with
    | true =>
      rw [hfirst, Option.some.injEq] at h
      subst h
      simp
    | false =>
      rw [hfirst] at h
      have hrest := ih h
      unfold before after at hrest
      simpa using hrest

/-- Without a term with the keyword, all terms stand before it. -/
theorem before_eq_self {keyword : String} {terms : List Term}
    (h : terms.find? (·.hasKeyword keyword) = none) : before keyword terms = terms := by
  rw [List.find?_eq_none] at h
  unfold before
  rw [List.takeWhile_eq_self_iff]
  simpa using h

/-- Without a term with the keyword, no term stands after it. -/
theorem after_eq_nil {keyword : String} {terms : List Term}
    (h : terms.find? (·.hasKeyword keyword) = none) : after keyword terms = [] := by
  rw [List.find?_eq_none] at h
  have hdrop : terms.dropWhile (fun term => !term.hasKeyword keyword) = [] := by
    rw [List.dropWhile_eq_nil_iff]
    simpa using h
  unfold after
  rw [hdrop, List.tail_nil]

/-! ## Faithful lists, one term at a time -/

/-- A term in front of others: it is canonical, and closed if others follow. -/
theorem faithful_cons_iff (term : Term) (terms : List Term) :
    Faithful (term :: terms) ↔
      term.IsCanonical ∧ (terms ≠ [] → isOpen false term.render.toList = false) ∧
        Faithful terms := by
  constructor
  · intro h
    refine ⟨h.isCanonical term (by simp), ?_, ?_, ?_⟩
    · intro hne
      apply h.closed term
      rw [List.dropLast_cons_of_ne_nil hne]
      simp
    · intro t ht
      exact h.isCanonical t (List.mem_cons_of_mem _ ht)
    · intro t ht
      have hne : terms ≠ [] := by
        rintro rfl
        simp at ht
      apply h.closed t
      rw [List.dropLast_cons_of_ne_nil hne]
      exact List.mem_cons_of_mem _ ht
  · rintro ⟨hcanonical, hclosed, h⟩
    constructor
    · intro t ht
      rcases List.mem_cons.1 ht with rfl | ht
      · exact hcanonical
      · exact h.isCanonical t ht
    · intro t ht
      have hne : terms ≠ [] := by
        rintro rfl
        simp at ht
      rw [List.dropLast_cons_of_ne_nil hne] at ht
      rcases List.mem_cons.1 ht with rfl | ht
      · exact hclosed hne
      · exact h.closed t ht

/-- A list with a given term in it: the terms before it are canonical and closed, the term itself is
canonical, and closed if others follow, and those are faithful. -/
theorem faithful_append_cons_iff (terms rest : List Term) (term : Term) :
    Faithful (terms ++ term :: rest) ↔
      (∀ t ∈ terms, t.IsCanonical ∧ isOpen false t.render.toList = false) ∧
        term.IsCanonical ∧ (rest ≠ [] → isOpen false term.render.toList = false) ∧
          Faithful rest := by
  induction terms with
  | nil => simp [faithful_cons_iff]
  | cons first terms ih =>
    rw [List.cons_append, faithful_cons_iff, ih, List.forall_mem_cons]
    simp [and_assoc]

/-- The first term with a keyword, or else the end of a faithful list, as the place for another
term: the list stays faithful when the term is canonical, when the terms before it are closed, which
needs to be asked only if it comes at the end, and when it is closed itself, or at the end.

**Proof sketch.** Where a term with the keyword gives way to the new one, the terms before it are
closed already. Where none has the keyword, the new term comes after all of them. -/
theorem Faithful.before_append_cons_after_iff {terms : List Term} (h : Faithful terms)
    (keyword : String) (term : Term) :
    Faithful (before keyword terms ++ term :: after keyword terms) ↔
      term.IsCanonical ∧
        (terms.find? (·.hasKeyword keyword) = none →
          ∀ t ∈ terms, isOpen false t.render.toList = false) ∧
        (after keyword terms ≠ [] → isOpen false term.render.toList = false) := by
  rw [faithful_append_cons_iff]
  cases hfind : terms.find? (·.hasKeyword keyword) with
  | none =>
    rw [before_eq_self hfind, after_eq_nil hfind]
    have hnil : Faithful [] := ⟨by simp, by simp⟩
    constructor
    · rintro ⟨hbefore, hterm, -, -⟩
      refine ⟨hterm, ?_, by simp⟩
      intro _ t ht
      exact (hbefore t ht).2
    · rintro ⟨hterm, hclosed, -⟩
      refine ⟨?_, hterm, by simp, hnil⟩
      intro t ht
      exact ⟨h.isCanonical t ht, hclosed rfl t ht⟩
  | some old =>
    rw [← before_append_cons_after hfind, faithful_append_cons_iff] at h
    obtain ⟨hbefore, -, -, hafter⟩ := h
    constructor
    · rintro ⟨-, hterm, hclosed, -⟩
      refine ⟨hterm, ?_, hclosed⟩
      intro hnone
      contradiction
    · rintro ⟨hterm, -, hclosed⟩
      exact ⟨hbefore, hterm, hclosed, hafter⟩

end Term

namespace Filter

open Quotes

/-! ## Setting a keyword -/

/-- After a valid keyword is set, a term made for it stands between the terms before the first one
that had it and those after. -/
theorem terms_set {keyword : String} (hk : Keyword.isValid keyword = true) (filter : Filter)
    (value : KeywordValue) (relation : Relation) :
    (filter.set keyword value relation).terms
      = Term.before keyword filter.terms
        ++ Term.keyed keyword relation value.stored :: Term.after keyword filter.terms := by
  unfold set
  rw [if_pos hk, Term.upsert_eq, Term.getD_find?_map_replace]

/-- **When a faithful filter stays faithful.** The value that is set must be solid once it is
stored. If no term has the keyword, no term may leave a quote open; if terms follow the first one
that has it, the value may not leave one open. -/
theorem faithful_set_iff {filter : Filter} (h : Term.Faithful filter.terms) {keyword : String}
    (hk : Keyword.isValid keyword = true) (value : KeywordValue) (relation : Relation) :
    Term.Faithful (filter.set keyword value relation).terms ↔
      isSolid false value.stored.toList = true ∧
        (filter.has keyword = false →
          ∀ term ∈ filter.terms, isOpen false term.render.toList = false) ∧
        (Term.after keyword filter.terms ≠ [] → isOpen false value.stored.toList = false) := by
  have hnone : filter.has keyword = false
      ↔ filter.terms.find? (·.hasKeyword keyword) = none := by
    unfold has getTerm?
    rw [Option.isSome_eq_false_iff, Option.isNone_iff_eq_none]
  rw [terms_set hk, h.before_append_cons_after_iff, Term.isCanonical_keyed_iff hk, hnone]
  refine and_congr_right ?_
  intro hsolid
  have hcanonical := (Term.isCanonical_keyed_iff hk relation value.stored).2 hsolid
  rw [hcanonical.isOpen_render]
  rfl

/-- The terms of a text leave no quote open when the text leaves none open. -/
theorem closed_terms_ofString_iff (text : String) :
    (∀ term ∈ (ofString text).terms, isOpen false term.render.toList = false)
      ↔ isOpen false text.toList = false := by
  have hnil : isOpen false [] = false := rfl
  rw [terms_ofString, Scanner.terms, List.forall_mem_map, ← Scanner.closed_pieces_iff hnil]
  simp only [Term.render_ofPiece, String.toList_ofList]

/-- **When what is set is read back.** In a filter that was read from a text, a valid keyword is set
to any value. The terms are read back from the text of that filter if and only if three things hold:
a value with quotes has all of its separators inside them; if no term had the keyword, the text has
an even number of quotes; and if terms follow the first one with the keyword, the value has an even
number of quotes. -/
theorem ofString_set_iff {keyword : String} (hk : Keyword.isValid keyword = true) (text : String)
    (value : KeywordValue) (relation : Relation) :
    (ofString ((ofString text).set keyword value relation).toFilterString).terms
        = ((ofString text).set keyword value relation).terms ↔
      ('"' ∈ value.display.toList → isSolid false value.display.toList = true) ∧
        ((ofString text).has keyword = false → Even (text.toList.count '"')) ∧
        (Term.after keyword (ofString text).terms ≠ [] →
          Even (value.display.toList.count '"')) := by
  have hread := faithful_terms_ofString text
  rw [toFilterString, terms_ofString_joinTerms_iff, faithful_set_iff hread hk,
    KeywordValue.isSolid_stored_iff, KeywordValue.isOpen_stored, closed_terms_ofString_iff,
    isOpen_eq_false_iff, isOpen_eq_false_iff]

/-- A value with a space is read back, in a text with a quoted value and a term after it. -/
theorem ofString_set_quoted :
    Keyword.isValid "name" = true ∧
      (ofString
          ((ofString "name=\"a b\" rows=10").set "name" (.text "c d") .equal).toFilterString).terms
        = ((ofString "name=\"a b\" rows=10").set "name" (.text "c d") .equal).terms := by
  have hk : Keyword.isValid "name" = true := by decide
  refine ⟨hk, (ofString_set_iff hk _ _ _).2 ⟨?_, ?_, ?_⟩⟩
  · decide
  · decide +kernel
  · decide

/-- What is set is not always read back: a value with quotes is stored as it is, and a space outside
them separates it. -/
theorem not_forall_ofString_set :
    ¬ ∀ (text keyword : String) (value : KeywordValue) (relation : Relation),
      Keyword.isValid keyword = true →
        (ofString ((ofString text).set keyword value relation).toFilterString).terms
          = ((ofString text).set keyword value relation).terms := by
  intro h
  have hread := h "rows=10" "name" (.text "say \"hi\"") .equal (by decide)
  revert hread
  decide +kernel

end Filter

end QueryFilter
