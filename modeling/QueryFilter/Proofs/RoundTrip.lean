import QueryFilter.Filter.Basic
import QueryFilter.Proofs.Canonical
import QueryFilter.Proofs.Parsing

set_option relaxedAutoImplicit false
set_option autoImplicit false

/-!
# Writing and reading back

A list of terms is written as one text. It is read back as the same list exactly when all terms are
canonical and no term but the last one leaves a quote open.

## Main definitions

* `QueryFilter.Term.Faithful` — lists of terms that a text can carry.

## Main results

* `QueryFilter.Term.faithful_scan` — what is read is faithful.
* `QueryFilter.Term.Faithful.scan_joinTerms` — what is faithful is read back.
* `QueryFilter.Filter.terms_ofString_joinTerms_iff` — both directions.
* `QueryFilter.Filter.ofString_toFilterString_iff` — the same, with quotes counted.
-/

namespace QueryFilter

namespace Term

open Quotes

/-- A list of terms that a text can carry: all of them are canonical, and only the last one may
leave a quote open. -/
structure Faithful (terms : List Term) : Prop where
  isCanonical : ∀ term ∈ terms, term.IsCanonical
  closed : ∀ term ∈ terms.dropLast, isOpen false term.render.toList = false

/-- The quotes that canonical terms leave open are those that their values leave open. -/
theorem faithful_iff {terms : List Term} :
    Faithful terms ↔ (∀ term ∈ terms, term.IsCanonical) ∧
      ∀ term ∈ terms.dropLast, isOpen false term.value.toList = false := by
  constructor
  · intro h
    refine ⟨h.isCanonical, ?_⟩
    intro term hterm
    rw [← (h.isCanonical term (List.dropLast_subset terms hterm)).isOpen_render]
    exact h.closed term hterm
  · rintro ⟨hcanonical, hclosed⟩
    refine ⟨hcanonical, ?_⟩
    intro term hterm
    rw [(hcanonical term (List.dropLast_subset terms hterm)).isOpen_render]
    exact hclosed term hterm

/-- The terms of separable pieces are faithful. -/
theorem faithful_map_ofPiece {pieces : List (List Char)} (h : Scanner.Separable pieces) :
    Faithful (pieces.map ofPiece) := by
  constructor
  · intro term hterm
    obtain ⟨piece, hpiece, rfl⟩ := List.mem_map.1 hterm
    exact isCanonical_ofPiece (h.ne_nil piece hpiece) (h.isSolid piece hpiece)
  · intro term hterm
    rw [← List.map_dropLast] at hterm
    obtain ⟨piece, hpiece, rfl⟩ := List.mem_map.1 hterm
    rw [render_ofPiece, String.toList_ofList]
    exact h.closed piece hpiece

/-- **What is read is faithful.** -/
theorem faithful_scan (text : String) : Faithful (Scanner.terms text) :=
  faithful_map_ofPiece (Scanner.separable_pieces text.toList)

namespace Faithful

variable {terms : List Term}

/-- The texts of faithful terms are separable. -/
theorem separable (h : Faithful terms) :
    Scanner.Separable (terms.map fun term => term.render.toList) := by
  refine ⟨?_, ?_, ?_⟩
  · intro piece hpiece
    obtain ⟨term, hterm, rfl⟩ := List.mem_map.1 hpiece
    simpa using (h.isCanonical term hterm).render_ne_empty
  · intro piece hpiece
    obtain ⟨term, hterm, rfl⟩ := List.mem_map.1 hpiece
    exact (h.isCanonical term hterm).isSolid_render
  · intro piece hpiece
    rw [← List.map_dropLast] at hpiece
    obtain ⟨term, hterm, rfl⟩ := List.mem_map.1 hpiece
    exact h.closed term hterm

/-- The text of faithful terms: none of them is written as an empty text and left out. -/
theorem toList_joinTerms (h : Faithful terms) :
    (Filter.joinTerms terms).toList
      = [' '].intercalate (terms.map fun term => term.render.toList) := by
  have hall : (terms.map render).filter (· != "") = terms.map render := by
    rw [List.filter_eq_self]
    intro text htext
    obtain ⟨term, hterm, rfl⟩ := List.mem_map.1 htext
    simpa using (h.isCanonical term hterm).render_ne_empty
  have hspace : " ".toList = [' '] := by decide
  rw [Filter.joinTerms, hall, String.toList_intercalate, hspace, List.map_map]
  rfl

/-- **What is faithful is read back.**

**Proof sketch.** The texts of the terms are separable, so they are the pieces of the joined text.
Each of them is read as its term. -/
theorem scan_joinTerms (h : Faithful terms) : Scanner.terms (Filter.joinTerms terms) = terms := by
  rw [Scanner.terms, h.toList_joinTerms, h.separable.pieces_join, List.map_map]
  refine (List.map_congr_left ?_).trans (List.map_id terms)
  intro term hterm
  exact (h.isCanonical term hterm).ofPiece_render

end Faithful

end Term

namespace Filter

/-- No text is kept as a bare term for want of terms, because the grammar accepts all of them. -/
theorem termsOfText_eq (text : String) : termsOfText text = Scanner.terms text := by
  unfold termsOfText
  rw [parseTerms?_eq_terms]

/-- The terms of the filter that a text writes are those of the scanner. -/
theorem terms_ofString (text : String) : (ofString text).terms = Scanner.terms text :=
  termsOfText_eq text

/-- **Terms are read back from their text exactly when they are faithful.** -/
theorem terms_ofString_joinTerms_iff (terms : List Term) :
    (ofString (joinTerms terms)).terms = terms ↔ Term.Faithful terms := by
  rw [terms_ofString]
  constructor
  · intro h
    rw [← h]
    exact Term.faithful_scan _
  · intro h
    exact h.scan_joinTerms

/-- The terms that are read from a text are faithful. -/
theorem faithful_terms_ofString (text : String) : Term.Faithful (ofString text).terms := by
  rw [terms_ofString]
  exact Term.faithful_scan text

/-- The terms of a text are read back from the text that they are written as. -/
theorem terms_ofString_toFilterString (text : String) :
    (ofString (ofString text).toFilterString).terms = (ofString text).terms := by
  rw [toFilterString, terms_ofString_joinTerms_iff]
  exact faithful_terms_ofString text

/-- **When a list of terms survives writing and reading.** Any terms at all are read back from the
text of their filter if and only if each of them is canonical and each of them but the last has an
even number of quotes. -/
theorem ofString_toFilterString_iff (terms : List Term) :
    (ofString (ofTerms terms).toFilterString).terms = terms ↔
      (∀ term ∈ terms, term.IsCanonical) ∧
        ∀ term ∈ terms.dropLast, Even (term.render.toList.count '"') := by
  show (ofString (joinTerms terms)).terms = terms ↔ _
  rw [terms_ofString_joinTerms_iff]
  constructor
  · intro h
    refine ⟨h.isCanonical, ?_⟩
    intro term hterm
    exact (Quotes.isOpen_eq_false_iff _).1 (h.closed term hterm)
  · rintro ⟨hcanonical, heven⟩
    refine ⟨hcanonical, ?_⟩
    intro term hterm
    exact (Quotes.isOpen_eq_false_iff _).2 (heven term hterm)

end Filter

end QueryFilter
