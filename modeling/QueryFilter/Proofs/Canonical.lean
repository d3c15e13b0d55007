import QueryFilter.Proofs.Scanner

set_option relaxedAutoImplicit false
set_option autoImplicit false

/-!
# Canonical terms

A term can be built from any parts, but not every term can be read from a text. The canonical terms
are those that can: they are exactly the terms that are read back from their own text.

## Main definitions

* `QueryFilter.Term.IsCanonical` — what the parts of a term must be like.

## Main results

* `QueryFilter.Term.isCanonical_keyed_iff`, `QueryFilter.Term.isCanonical_bare_iff` — which of the
  terms that are made are canonical.
* `QueryFilter.Term.isCanonical_ofPiece` — what is read is canonical.
* `QueryFilter.Term.IsCanonical.ofPiece_render` — what is canonical is read back.
* `QueryFilter.Term.isCanonical_iff` — both, as one condition on the text of a term.
-/

namespace QueryFilter

namespace Term

open Quotes

/-- A term that a text can stand for: its keyword is valid and comes with a relation, no separator
of its value stands outside quotes, and a value without keyword and relation is not empty and cannot
be taken for a value that has them. -/
structure IsCanonical (term : Term) : Prop where
  keyword_isValid : ∀ keyword, term.keyword = some keyword →
    Keyword.isValid keyword = true ∧ term.relation.isSome = true
  value_isSolid : isSolid false term.value.toList = true
  value_ne_empty : term.keyword = none → term.relation = none → term.value ≠ ""
  /-- With an empty text in front: the value does not start with a relation character. -/
  value_unmarked : term.keyword = none → term.relation = none →
    ∀ (keyword rest : List Char) (relation : Relation), keyword.all Keyword.isChar = true →
      term.value.toList ≠ keyword ++ relation.toChar :: rest

/-! ## Terms that are made -/

/-- A term with a valid keyword and a relation is canonical when its value is solid. -/
theorem isCanonical_keyed_iff {keyword : String} (hk : Keyword.isValid keyword = true)
    (relation : Relation) (value : String) :
    (keyed keyword relation value).IsCanonical ↔ isSolid false value.toList = true := by
  have hkeyword := keyword_keyed hk relation value
  constructor
  · intro h
    exact h.value_isSolid
  · intro h
    refine ⟨?_, h, ?_, ?_⟩
    · intro k hsome
      rw [hkeyword, Option.some.injEq] at hsome
      subst hsome
      exact ⟨hk, rfl⟩
    · intro _ hrelation
      contradiction
    · intro _ hrelation
      contradiction

/-- A bare term is canonical when its value is solid and, if no relation stands before it, not empty
and without a relation of its own. -/
theorem isCanonical_bare_iff (relation : Option Relation) (value : String) :
    (bare relation value).IsCanonical ↔
      isSolid false value.toList = true ∧
        (relation = none → value ≠ "" ∧
          ∀ (keyword rest : List Char) (r : Relation), keyword.all Keyword.isChar = true →
            value.toList ≠ keyword ++ r.toChar :: rest) := by
  constructor
  · intro h
    refine ⟨h.value_isSolid, ?_⟩
    intro hrelation
    exact ⟨h.value_ne_empty rfl hrelation, h.value_unmarked rfl hrelation⟩
  · rintro ⟨hsolid, hvalue⟩
    refine ⟨?_, hsolid, ?_, ?_⟩
    · intro keyword hkeyword
      contradiction
    · intro _ hrelation
      exact (hvalue hrelation).1
    · intro _ hrelation
      exact (hvalue hrelation).2

/-! ## What is read is canonical -/

/-- A keyword that is read is valid. -/
theorem isValid_ofList {keyword : List Char} (hk : keyword.all Keyword.isChar = true)
    (hne : keyword ≠ []) : Keyword.isValid (String.ofList keyword) = true := by
  rw [Keyword.isValid, String.toList_ofList, hk]
  simpa using hne

/-- What is read from a piece is canonical. -/
theorem isCanonical_ofPiece {piece : List Char} (hne : piece ≠ [])
    (hsolid : isSolid false piece = true) : (ofPiece piece).IsCanonical := by
  cases hm : Scanner.marker? piece with
  | none =>
    have hunmarked := Scanner.marker?_eq_none_iff.1 hm
    rw [ofPiece_of_none hm]
    refine ⟨?_, ?_, ?_, ?_⟩
    · intro keyword hkeyword
      contradiction
    · simpa [bare] using hsolid
    · intro _ _
      simpa [bare] using hne
    · intro _ _ keyword rest relation hk
      rw [bare, String.toList_ofList]
      exact hunmarked keyword rest relation hk
  | some m =>
    obtain ⟨keyword, relation, value⟩ := m
    obtain ⟨rfl, hk⟩ := Scanner.marker?_eq_some_iff.1 hm
    rw [ofPiece_of_some hm]
    refine ⟨?_, ?_, ?_, ?_⟩
    · intro k hkeyword
      rw [keyword_ofParts] at hkeyword
      obtain ⟨heq, hnonempty⟩ := Option.filter_eq_some_iff.1 hkeyword
      rw [Option.some.injEq] at heq
      subst heq
      refine ⟨isValid_ofList hk ?_, rfl⟩
      rintro rfl
      simp at hnonempty
    · rwa [value_ofParts, String.toList_ofList, ← Scanner.isSolid_marker hk relation]
    · intro _ hrelation
      contradiction
    · intro _ hrelation
      contradiction

/-! ## What is canonical is read back -/

namespace IsCanonical

variable {term : Term}

/-- The text of a canonical term with a relation, and where the relation stands in it. -/
theorem marker?_render (h : term.IsCanonical) {relation : Relation}
    (hrelation : term.relation = some relation) :
    Scanner.marker? term.render.toList
      = some ((term.keyword.getD "").toList, relation, term.value.toList) := by
  rw [Scanner.marker?_eq_some_iff]
  constructor
  · simp [render, hrelation, Relation.render]
  · cases hkeyword : term.keyword with
    | none => simp
    | some keyword =>
      obtain ⟨hvalid, -⟩ := h.keyword_isValid keyword hkeyword
      simp only [Keyword.isValid, Bool.and_eq_true] at hvalid
      exact hvalid.2

/-- A canonical term without a relation has no keyword either. -/
theorem keyword_eq_none (h : term.IsCanonical) (hrelation : term.relation = none) :
    term.keyword = none := by
  cases hkeyword : term.keyword with
  | none => rfl
  | some keyword =>
    obtain ⟨-, hsome⟩ := h.keyword_isValid keyword hkeyword
    simp [hrelation] at hsome

/-- The text of a canonical term without a relation is its value, which holds no relation. -/
theorem marker?_render_eq_none (h : term.IsCanonical) (hrelation : term.relation = none) :
    term.render = term.value ∧ Scanner.marker? term.render.toList = none := by
  have hkeyword := h.keyword_eq_none hrelation
  have hrender : term.render = term.value := by simp [render, hkeyword, hrelation]
  refine ⟨hrender, ?_⟩
  rw [hrender, Scanner.marker?_eq_none_iff]
  intro keyword rest relation hk
  exact h.value_unmarked hkeyword hrelation keyword rest relation hk

/-- **A canonical term is read back from its text.**

**Proof sketch.** With a relation, the text is taken apart at that relation, and the parts are those
of the term. Without one, the text is the value and is not taken apart. -/
theorem ofPiece_render (h : term.IsCanonical) : ofPiece term.render.toList = term := by
  cases hrelation : term.relation with
  | none =>
    obtain ⟨hrender, hm⟩ := h.marker?_render_eq_none hrelation
    rw [ofPiece_of_none hm, hrender, String.ofList_toList]
    ext1
    · exact (h.keyword_eq_none hrelation).symm
    · exact hrelation.symm
    · rfl
  | some relation =>
    rw [ofPiece_of_some (h.marker?_render hrelation), String.ofList_toList, String.ofList_toList]
    ext1
    · cases hkeyword : term.keyword with
      | none => rfl
      | some keyword =>
        have hne : keyword ≠ "" := by
          rintro rfl
          exact term.keyword_ne_empty hkeyword
        simp [hne]
    · exact hrelation.symm
    · rfl

/-- A canonical term is written as a solid text. -/
theorem isSolid_render (h : term.IsCanonical) : isSolid false term.render.toList = true := by
  cases hrelation : term.relation with
  | none =>
    rw [(h.marker?_render_eq_none hrelation).1]
    exact h.value_isSolid
  | some relation =>
    obtain ⟨hrender, hk⟩ := Scanner.marker?_eq_some_iff.1 (h.marker?_render hrelation)
    rw [hrender, Scanner.isSolid_marker hk]
    exact h.value_isSolid

/-- A canonical term is not written as an empty text. -/
theorem render_ne_empty (h : term.IsCanonical) : term.render ≠ "" := by
  cases hrelation : term.relation with
  | none =>
    rw [(h.marker?_render_eq_none hrelation).1]
    exact h.value_ne_empty (h.keyword_eq_none hrelation) hrelation
  | some relation =>
    obtain ⟨hrender, -⟩ := Scanner.marker?_eq_some_iff.1 (h.marker?_render hrelation)
    rw [← String.toList_inj.ne, hrender]
    simp

/-- The quotes of a canonical term are those of its value. -/
theorem isOpen_render (h : term.IsCanonical) :
    isOpen false term.render.toList = isOpen false term.value.toList := by
  cases hrelation : term.relation with
  | none => rw [(h.marker?_render_eq_none hrelation).1]
  | some relation =>
    obtain ⟨hrender, hk⟩ := Scanner.marker?_eq_some_iff.1 (h.marker?_render hrelation)
    rw [hrender, Scanner.isOpen_marker hk]

end IsCanonical

/-- A term is canonical when its text is one piece and is read as the term. -/
theorem isCanonical_iff (term : Term) :
    term.IsCanonical ↔ term.render ≠ "" ∧ isSolid false term.render.toList = true ∧
      ofPiece term.render.toList = term := by
  constructor
  · intro h
    exact ⟨h.render_ne_empty, h.isSolid_render, h.ofPiece_render⟩
  · rintro ⟨hne, hsolid, hread⟩
    have hnil : term.render.toList ≠ [] := by simpa using hne
    rw [← hread]
    exact isCanonical_ofPiece hnil hsolid

/-- Whether a term is canonical can be found out by writing and reading it. -/
instance (term : Term) : Decidable term.IsCanonical :=
  decidable_of_iff _ (isCanonical_iff term).symm

end Term

end QueryFilter
