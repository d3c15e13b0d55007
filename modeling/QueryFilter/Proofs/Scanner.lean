import QueryFilter.Proofs.Quotes
import QueryFilter.Term

set_option relaxedAutoImplicit false
set_option autoImplicit false

/-!
# The scanner

Filter strings read in one pass, without a grammar. The text is walked with the quote flag, cut
where separators count, and each piece is taken apart at its first relation character, provided that
only keyword characters stand before it.

## Main definitions

* `QueryFilter.Scanner.pieces` — the pieces of a text.
* `QueryFilter.Scanner.marker?` — a piece taken apart at its relation.
* `QueryFilter.Term.ofPiece` — the term that a piece stands for.
* `QueryFilter.Scanner.terms` — the terms of a filter string.
* `QueryFilter.Scanner.Separable` — lists of pieces that can be told apart again once they are
  joined.

## Main results

* `QueryFilter.Scanner.separable_pieces`, `QueryFilter.Scanner.Separable.pieces_join` — the pieces
  of a text are separable, and joining separable pieces loses nothing.
* `QueryFilter.Scanner.pieces_of_isOpen` — an open quote makes the last piece run to the end.
* `QueryFilter.Scanner.marker?_eq_some_iff` — where a piece has its relation.
* `QueryFilter.Term.render_ofPiece` — a term is written as the piece that it was read from.
-/

namespace QueryFilter

namespace Scanner

open Quotes

/-- A piece as a list of pieces; an empty one is dropped. -/
def keep (piece : List Char) : List (List Char) :=
  if piece = [] then [] else [piece]

/-- The pieces of a text, with the quote flag and the piece that has been read so far. -/
def pieces : Bool → List Char → List Char → List (List Char)
  | _, piece, [] => keep piece
  | quoted, piece, c :: text =>
    if quoted || !isSeparator c then pieces (quoted ^^ isQuote c) (piece ++ [c]) text
    else keep piece ++ pieces false [] text

/-- The keyword characters that a piece starts with, the relation after them and the value after
that; none when no relation character follows the keyword characters. -/
def marker? (piece : List Char) : Option (List Char × Relation × List Char) :=
  match piece.dropWhile Keyword.isChar with
  | [] => none
  | c :: value =>
    (Relation.ofChar? c).map fun relation => (piece.takeWhile Keyword.isChar, relation, value)

end Scanner

/-- The term that a piece stands for. -/
def Term.ofPiece (piece : List Char) : Term :=
  match Scanner.marker? piece with
  | none => .bare none (String.ofList piece)
  | some ([], relation, value) => .bare (some relation) (String.ofList value)
  | some (keyword, relation, value) =>
    .keyed (String.ofList keyword) relation (String.ofList value)

namespace Scanner

open Quotes

/-- The terms of a filter string. -/
def terms (text : String) : List Term :=
  (pieces false [] text.toList).map Term.ofPiece

/-- Pieces that can be told apart once separators stand between them: none is empty, each is solid,
and only the last one may end inside quotes. -/
structure Separable (list : List (List Char)) : Prop where
  ne_nil : ∀ piece ∈ list, piece ≠ []
  isSolid : ∀ piece ∈ list, isSolid false piece = true
  closed : ∀ piece ∈ list.dropLast, isOpen false piece = false

/-! ## Pieces -/

@[simp] theorem keep_nil : keep [] = [] := rfl

theorem keep_of_ne_nil {piece : List Char} (h : piece ≠ []) : keep piece = [piece] :=
  if_neg h

theorem eq_of_mem_keep {p piece : List Char} (h : p ∈ keep piece) : p = piece := by
  unfold keep at h
  split at h
  · contradiction
  · exact List.mem_singleton.1 h

@[simp] theorem pieces_nil (quoted : Bool) (piece : List Char) :
    pieces quoted piece [] = keep piece := rfl

@[simp] theorem pieces_cons (quoted : Bool) (piece : List Char) (c : Char) (text : List Char) :
    pieces quoted piece (c :: text)
      = if quoted || !isSeparator c then pieces (quoted ^^ isQuote c) (piece ++ [c]) text
        else keep piece ++ pieces false [] text := rfl

/-- A solid text joins the piece that is being read. -/
theorem pieces_append {quoted : Bool} {a : List Char} (ha : Quotes.isSolid quoted a = true)
    (piece b : List Char) :
    pieces quoted piece (a ++ b) = pieces (isOpen quoted a) (piece ++ a) b := by
  induction a generalizing quoted piece with
  | nil => simp
  | cons c a ih =>
    rw [isSolid_cons, Bool.and_eq_true] at ha
    rw [List.cons_append, pieces_cons, if_pos ha.1, ih ha.2, isOpen_cons, List.append_assoc]
    rfl

/-- The piece that is being read is complete where it ends. -/
theorem pieces_of_ends {quoted : Bool} {text : List Char} (h : Ends quoted text)
    (piece : List Char) : pieces quoted piece text = keep piece ++ pieces false [] text := by
  cases text with
  | nil => simp
  | cons c text =>
    obtain ⟨rfl, hc⟩ := h
    simp [hc]

/-- A piece that ends is the first one. -/
theorem pieces_piece {piece text : List Char} (hne : piece ≠ [])
    (hsolid : Quotes.isSolid false piece = true) (hend : Ends (isOpen false piece) text) :
    pieces false [] (piece ++ text) = piece :: pieces false [] text := by
  rw [pieces_append hsolid, List.nil_append, pieces_of_ends hend, keep_of_ne_nil hne]
  rfl

/-- Separators at the start are skipped. -/
theorem pieces_gap {gap : List Char} (h : gap.all isSeparator = true) (text : List Char) :
    pieces false [] (gap ++ text) = pieces false [] text := by
  induction gap with
  | nil => rfl
  | cons c gap ih =>
    simp only [List.all_cons, Bool.and_eq_true] at h
    rw [List.cons_append, pieces_cons, if_neg (by simp [h.1]), ih h.2]
    rfl

/-- An open quote makes the last piece run to the end of the text. -/
theorem pieces_of_isOpen {quoted : Bool} {piece : List Char} (hq : isOpen false piece = quoted)
    {text : List Char} (h : isOpen quoted text = true) :
    ∃ before last, pieces quoted piece text = before ++ [last] ∧ last <:+ piece ++ text ∧
      isOpen false last = true := by
  induction text generalizing quoted piece with
  | nil =>
    rw [isOpen_nil] at h
    have hne : piece ≠ [] := by
      rintro rfl
      rw [isOpen_nil, h] at hq
      contradiction
    refine ⟨[], piece, ?_, by simp, by rw [hq, h]⟩
    rw [pieces_nil, keep_of_ne_nil hne, List.nil_append]
  | cons c text ih =>
    rw [isOpen_cons] at h
    rw [pieces_cons]
    split
    · have hq' : isOpen false (piece ++ [c]) = (quoted ^^ isQuote c) := by
        rw [isOpen_concat, hq]
      obtain ⟨before, last, hp, hs, ho⟩ := ih hq' h
      exact ⟨before, last, hp, by simpa using hs, ho⟩
    · next hc =>
      obtain ⟨hquoted, hsep⟩ := separates_of_not hc
      have h' : isOpen false text = true := by
        rwa [hquoted, isQuote_of_isSeparator hsep, Bool.xor_false] at h
      have hnil : isOpen false [] = false := rfl
      obtain ⟨before, last, hp, hs, ho⟩ := ih hnil h'
      refine ⟨keep piece ++ before, last, by rw [hp, List.append_assoc], ?_, ho⟩
      exact hs.trans ⟨piece ++ [c], by simp⟩

/-- No piece leaves a quote open exactly when the text leaves none open.

**Proof sketch.** Induction on the text. A piece is cut off only while the flag is down, so only the
piece at the end can be open, and it is when the flag is up there. -/
theorem closed_pieces_iff {quoted : Bool} {piece : List Char} (hq : isOpen false piece = quoted)
    (text : List Char) :
    (∀ p ∈ pieces quoted piece text, isOpen false p = false) ↔ isOpen quoted text = false := by
  induction text generalizing quoted piece with
  | nil =>
    rw [pieces_nil, isOpen_nil]
    unfold keep
    split
    · next hnil =>
      subst hnil
      simpa using hq.symm
    · simp [hq]
  | cons c text ih =>
    rw [pieces_cons, isOpen_cons]
    split
    · apply ih
      rw [isOpen_concat, hq]
    · next hc =>
      obtain ⟨rfl, hsep⟩ := separates_of_not hc
      have hkeep : ∀ p ∈ keep piece, isOpen false p = false := by
        intro p hp
        rwa [eq_of_mem_keep hp]
      have hnil : isOpen false [] = false := rfl
      rw [isQuote_of_isSeparator hsep, Bool.xor_false, ← ih hnil]
      constructor
      · intro h p hp
        exact h p (List.mem_append_right _ hp)
      · intro h p hp
        rcases List.mem_append.1 hp with hp | hp
        · exact hkeep p hp
        · exact h p hp

/-! ## Joined pieces -/

namespace Separable

theorem nil : Separable [] :=
  ⟨by simp, by simp, by simp⟩

/-- A closed piece in front of separable pieces. -/
theorem cons {piece : List Char} {list : List (List Char)} (hne : piece ≠ [])
    (hsolid : Quotes.isSolid false piece = true) (hclosed : isOpen false piece = false)
    (h : Separable list) : Separable (piece :: list) := by
  refine ⟨?_, ?_, ?_⟩
  · rintro p (_ | ⟨_, hp⟩)
    · exact hne
    · exact h.ne_nil p hp
  · rintro p (_ | ⟨_, hp⟩)
    · exact hsolid
    · exact h.isSolid p hp
  · cases list with
    | nil => simp
    | cons next list =>
      rintro p (_ | ⟨_, hp⟩)
      · exact hclosed
      · exact h.closed p hp

/-- A single piece may end inside quotes. -/
theorem singleton {piece : List Char} (hne : piece ≠ [])
    (hsolid : Quotes.isSolid false piece = true) : Separable [piece] :=
  ⟨by simpa using hne, by simpa using hsolid, by simp⟩

/-- The pieces after the first one. -/
theorem tail {piece : List Char} {list : List (List Char)} (h : Separable (piece :: list)) :
    Separable list := by
  refine ⟨fun p hp => h.ne_nil p (.tail _ hp), fun p hp => h.isSolid p (.tail _ hp), ?_⟩
  intro p hp
  cases list with
  | nil => simp at hp
  | cons next list => exact h.closed p (.tail _ hp)

/-- **Joining separable pieces loses nothing**: the pieces of the joined text are the pieces.

**Proof sketch.** Induction on the list. A piece that is not the last one is closed, so the space
after it ends it, and the scanner goes on with the joined text of the others. -/
theorem pieces_join {list : List (List Char)} (h : Separable list) :
    pieces false [] ([' '].intercalate list) = list := by
  induction list with
  | nil => rfl
  | cons piece list ih =>
    have hne := h.ne_nil piece (by simp)
    have hsolid := h.isSolid piece (by simp)
    cases list with
    | nil =>
      have hend : Ends (isOpen false piece) [] := trivial
      have hp := pieces_piece hne hsolid hend
      rw [List.append_nil] at hp
      rw [List.intercalate_singleton, hp]
      rfl
    | cons next list =>
      have hclosed := h.closed piece (by simp)
      have hgap : [' '].all isSeparator = true := by simp
      have hend : Ends (isOpen false piece) (' ' :: [' '].intercalate (next :: list)) :=
        ⟨hclosed, isSeparator_space⟩
      have hrest : pieces false [] (' ' :: [' '].intercalate (next :: list)) = next :: list :=
        (pieces_gap hgap _).trans (ih h.tail)
      rw [List.intercalate_cons_cons, List.append_assoc, List.singleton_append,
        pieces_piece hne hsolid hend, hrest]

end Separable

/-- The pieces of a text are separable, when the piece that has been read so far is solid and leaves
the present flag.

**Proof sketch.** Induction on the text. A piece is cut off only where a separator counts, and there
the flag is down. -/
theorem separable_pieces_of_isSolid {quoted : Bool} {piece : List Char}
    (hsolid : Quotes.isSolid false piece = true) (hq : isOpen false piece = quoted)
    (text : List Char) : Separable (pieces quoted piece text) := by
  induction text generalizing quoted piece with
  | nil =>
    rw [pieces_nil]
    unfold keep
    split
    · exact .nil
    · next hne => exact .singleton hne hsolid
  | cons c text ih =>
    rw [pieces_cons]
    split
    · next hc =>
      apply ih
      · rw [isSolid_append, hsolid, hq, isSolid_cons, hc]
        rfl
      · rw [isOpen_concat, hq]
    · next hc =>
      obtain ⟨rfl, -⟩ := separates_of_not hc
      have hrest : Separable (pieces false [] text) := ih rfl rfl
      unfold keep
      split
      · exact hrest
      · next hne => exact .cons hne hsolid hq hrest

/-- **The pieces of a text are separable.** -/
theorem separable_pieces (text : List Char) : Separable (pieces false [] text) := by
  have hsolid : Quotes.isSolid false [] = true := rfl
  have hopen : isOpen false [] = false := rfl
  exact separable_pieces_of_isSolid hsolid hopen text

/-! ## Markers -/

/-- No relation character can stand in a keyword. -/
theorem isChar_toChar (relation : Relation) : Keyword.isChar relation.toChar = false := by
  cases relation <;> decide

/-- A keyword character does not separate. -/
theorem isSeparator_of_isChar {c : Char} (h : Keyword.isChar c = true) : isSeparator c = false := by
  by_contra hs
  simp only [isSeparator, separators, List.contains_eq_mem, List.mem_cons, List.not_mem_nil,
    or_false, Bool.not_eq_false, decide_eq_true_eq] at hs
  rcases hs with rfl | rfl | rfl | rfl <;> contradiction

/-- A keyword character is not a quote. -/
theorem isQuote_of_isChar {c : Char} (h : Keyword.isChar c = true) : isQuote c = false := by
  by_contra hq
  have hc : c = '"' := by simpa [isQuote] using hq
  subst hc
  contradiction

/-- Keyword characters hold nothing of a class that no keyword character belongs to. -/
theorem not_any_of_all_isChar {test : Char → Bool}
    (htest : ∀ c, Keyword.isChar c = true → test c = false) {text : List Char}
    (h : text.all Keyword.isChar = true) : text.any test = false := by
  rw [List.any_eq_false]
  intro c hc
  rw [htest c (List.all_eq_true.1 h c hc)]
  exact Bool.false_ne_true

/-- A keyword and the relation after it hold no separator. -/
theorem not_any_isSeparator_marker {keyword : List Char} (hk : keyword.all Keyword.isChar = true)
    (relation : Relation) : (keyword ++ [relation.toChar]).any isSeparator = false := by
  have hkeyword := not_any_of_all_isChar (fun _ => isSeparator_of_isChar) hk
  have hrelation : isSeparator relation.toChar = false := by cases relation <;> decide
  simp [hkeyword, hrelation]

/-- A keyword and the relation after it hold no quote. -/
theorem not_any_isQuote_marker {keyword : List Char} (hk : keyword.all Keyword.isChar = true)
    (relation : Relation) : (keyword ++ [relation.toChar]).any isQuote = false := by
  have hkeyword := not_any_of_all_isChar (fun _ => isQuote_of_isChar) hk
  have hrelation : isQuote relation.toChar = false := by cases relation <;> decide
  simp [hkeyword, hrelation]

/-- A piece with a relation is solid when its value is. -/
theorem isSolid_marker {keyword : List Char} (hk : keyword.all Keyword.isChar = true)
    (relation : Relation) (quoted : Bool) (value : List Char) :
    Quotes.isSolid quoted (keyword ++ relation.toChar :: value) = Quotes.isSolid quoted value := by
  rw [List.append_cons, isSolid_append,
    isSolid_of_not_any_isSeparator (not_any_isSeparator_marker hk relation),
    isOpen_of_not_any_isQuote (not_any_isQuote_marker hk relation), Bool.true_and]

/-- A piece with a relation leaves the flag that its value leaves. -/
theorem isOpen_marker {keyword : List Char} (hk : keyword.all Keyword.isChar = true)
    (relation : Relation) (quoted : Bool) (value : List Char) :
    isOpen quoted (keyword ++ relation.toChar :: value) = isOpen quoted value := by
  rw [List.append_cons, isOpen_append,
    isOpen_of_not_any_isQuote (not_any_isQuote_marker hk relation)]

/-- **The relation of a piece** stands after its leading keyword characters, and its place is the
only one of that kind. -/
theorem marker?_eq_some_iff {piece keyword value : List Char} {relation : Relation} :
    marker? piece = some (keyword, relation, value)
      ↔ piece = keyword ++ relation.toChar :: value ∧ keyword.all Keyword.isChar = true := by
  constructor
  · intro h
    rw [marker?] at h
    split at h
    · contradiction
    · next c v hdrop =>
      obtain ⟨r, hr, heq⟩ := Option.map_eq_some_iff.1 h
      simp only [Prod.mk.injEq] at heq
      obtain ⟨rfl, rfl, rfl⟩ := heq
      refine ⟨?_, List.all_takeWhile⟩
      rw [← Relation.ofChar?_eq_some_iff.1 hr, ← hdrop, List.takeWhile_append_dropWhile]
  · rintro ⟨rfl, hk⟩
    have hkeyword : ∀ c ∈ keyword, Keyword.isChar c = true := by simpa using hk
    have htake : (relation.toChar :: value).takeWhile Keyword.isChar = [] := by
      rw [List.takeWhile_cons, isChar_toChar]
      rfl
    have hdrop : (relation.toChar :: value).dropWhile Keyword.isChar
        = relation.toChar :: value := by
      rw [List.dropWhile_cons, isChar_toChar]
      rfl
    rw [marker?, List.dropWhile_append_of_pos hkeyword, List.takeWhile_append_of_pos hkeyword,
      htake, hdrop, List.append_nil]
    simp

/-- A piece has no relation when no text of keyword characters at its start is followed by a
relation character. -/
theorem marker?_eq_none_iff {piece : List Char} :
    marker? piece = none ↔ ∀ (keyword value : List Char) (relation : Relation),
      keyword.all Keyword.isChar = true → piece ≠ keyword ++ relation.toChar :: value := by
  constructor
  · intro h keyword value relation hk hp
    rw [marker?_eq_some_iff.2 ⟨hp, hk⟩] at h
    contradiction
  · intro h
    cases hm : marker? piece with
    | none => rfl
    | some m =>
      obtain ⟨keyword, relation, value⟩ := m
      obtain ⟨hp, hk⟩ := marker?_eq_some_iff.1 hm
      exact absurd hp (h keyword value relation hk)

end Scanner

namespace Term

/-- A piece without a relation is a bare term. -/
theorem ofPiece_of_none {piece : List Char} (h : Scanner.marker? piece = none) :
    ofPiece piece = bare none (String.ofList piece) := by
  rw [ofPiece, h]

/-- A piece with a relation is a term with the keyword before it, if there is one. -/
theorem ofPiece_of_some {piece keyword value : List Char} {relation : Relation}
    (h : Scanner.marker? piece = some (keyword, relation, value)) :
    ofPiece piece
      = ofParts (some (String.ofList keyword)) (some relation) (String.ofList value) := by
  rw [ofPiece, h]
  cases keyword with
  | nil => rfl
  | cons c keyword => rfl

/-- The text of a term made from parts: no keyword and an empty one are written alike. -/
theorem render_ofParts (keyword : String) (relation : Relation) (value : String) :
    (ofParts (some keyword) (some relation) value).render
      = keyword ++ (relation.render ++ value) := by
  rw [render, keyword_ofParts, relation_ofParts, value_ofParts, Option.elim_some]
  by_cases h : keyword = ""
  · simp [Option.filter, h]
  · simp [Option.filter, h]

/-- A term is written as the piece that it was read from. -/
theorem render_ofPiece (piece : List Char) : (ofPiece piece).render = String.ofList piece := by
  cases hm : Scanner.marker? piece with
  | none =>
    rw [ofPiece_of_none hm]
    simp [render, bare]
  | some m =>
    obtain ⟨keyword, relation, value⟩ := m
    obtain ⟨rfl, hk⟩ := Scanner.marker?_eq_some_iff.1 hm
    rw [ofPiece_of_some hm, render_ofParts, ← String.toList_inj]
    simp [Relation.render]

end Term

end QueryFilter
