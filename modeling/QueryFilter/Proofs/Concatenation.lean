import Mathlib.Algebra.Ring.Parity
import QueryFilter.Proofs.Parsing

set_option relaxedAutoImplicit false
set_option autoImplicit false

/-!
# Filter strings one after the other

Where a filter string leaves no quote open, separators end its last term, and what comes after them
is read as if it stood alone. Where a quote is open, the separators are a part of the last term, and
so is what comes after them up to the end of that term.

## Main results

* `QueryFilter.Scanner.exists_pieces_append` — what a text leaves to the texts after it.
* `QueryFilter.Scanner.pieces_append_gap` — the pieces of a closed text, separators and another text.
* `QueryFilter.Scanner.exists_pieces_open_append` — the same for a text with an open quote.
* `QueryFilter.parseTerms?_append` — the terms of filter strings with separators between them.
-/

namespace QueryFilter

namespace Scanner

open Quotes

/-- **What a text leaves to the texts after it**: pieces that are complete, and one that is still
being read. The flag after the unfinished piece is the flag after the text.

**Proof sketch.** Induction on the text. Where a separator counts, the piece is complete, and the
next one starts with nothing read and with the flag down. -/
theorem exists_pieces_append {quoted : Bool} {piece : List Char}
    (hq : isOpen false piece = quoted) (a : List Char) :
    ∃ done rest, isOpen false rest = isOpen quoted a ∧
      ∀ b, pieces quoted piece (a ++ b) = done ++ pieces (isOpen quoted a) rest b := by
  induction a generalizing quoted piece with
  | nil =>
    refine ⟨[], piece, hq, ?_⟩
    intro b
    rfl
  | cons c a ih =>
    rw [isOpen_cons]
    by_cases hc : (quoted || !isSeparator c) = true
    · have hq' : isOpen false (piece ++ [c]) = (quoted ^^ isQuote c) := by
        rw [isOpen_concat, hq]
      obtain ⟨done, rest, hrest, hpieces⟩ := ih hq'
      refine ⟨done, rest, hrest, ?_⟩
      intro b
      rw [List.cons_append, pieces_cons, if_pos hc, hpieces]
    · obtain ⟨rfl, hsep⟩ := separates_of_not hc
      have hnil : isOpen false [] = false := rfl
      obtain ⟨done, rest, hrest, hpieces⟩ := ih hnil
      rw [isQuote_of_isSeparator hsep, Bool.xor_false]
      refine ⟨keep piece ++ done, rest, hrest, ?_⟩
      intro b
      rw [List.cons_append, pieces_cons, if_neg hc, hpieces, List.append_assoc]

/-- A piece that has been started is the start of the first piece. -/
theorem exists_pieces_eq_cons {piece : List Char} (hne : piece ≠ []) (quoted : Bool)
    (text : List Char) : ∃ more after, pieces quoted piece text = (piece ++ more) :: after := by
  induction text generalizing quoted piece with
  | nil =>
    refine ⟨[], [], ?_⟩
    rw [pieces_nil, keep_of_ne_nil hne, List.append_nil]
  | cons c text ih =>
    rw [pieces_cons]
    split
    · have hne' : piece ++ [c] ≠ [] := by simp
      obtain ⟨more, after, hpieces⟩ := ih hne' (quoted ^^ isQuote c)
      refine ⟨c :: more, after, ?_⟩
      rw [hpieces, List.append_assoc, List.singleton_append]
    · refine ⟨[], pieces false [] text, ?_⟩
      rw [keep_of_ne_nil hne, List.append_nil, List.singleton_append]

/-- Separators hold no quote. -/
theorem not_any_isQuote_of_all_isSeparator {gap : List Char} (h : gap.all isSeparator = true) :
    gap.any isQuote = false := by
  rw [List.any_eq_false]
  intro c hc
  have hsep : isSeparator c = true := List.all_eq_true.1 h c hc
  rw [isQuote_of_isSeparator hsep]
  exact Bool.false_ne_true

/-- After a text that leaves no quote open and separators, another text is read as if it stood
alone. -/
theorem pieces_append_gap {a gap : List Char} (ha : isOpen false a = false)
    (hgap : gap.all isSeparator = true) (hne : gap ≠ []) (b : List Char) :
    pieces false [] (a ++ (gap ++ b)) = pieces false [] a ++ pieces false [] b := by
  have hnil : isOpen false [] = false := rfl
  obtain ⟨done, rest, -, hpieces⟩ := exists_pieces_append hnil a
  rw [ha] at hpieces
  have hend : Ends false (gap ++ b) := by
    cases gap with
    | nil => exact absurd rfl hne
    | cons c gap => exact ⟨rfl, List.all_eq_true.1 hgap c List.mem_cons_self⟩
  have hfirst : pieces false [] a = done ++ keep rest := by
    simpa using hpieces []
  calc pieces false [] (a ++ (gap ++ b))
      = done ++ pieces false rest (gap ++ b) := hpieces (gap ++ b)
    _ = done ++ (keep rest ++ pieces false [] (gap ++ b)) := by rw [pieces_of_ends hend]
    _ = pieces false [] a ++ pieces false [] b := by
      rw [pieces_gap hgap, hfirst, List.append_assoc]

/-- After a text that leaves a quote open, separators belong to its last piece, and what comes after
them goes on with that piece. -/
theorem exists_pieces_open_append {a gap : List Char} (ha : isOpen false a = true)
    (hgap : gap.all isSeparator = true) (b : List Char) :
    ∃ done last more after, pieces false [] a = done ++ [last] ∧
      pieces false [] (a ++ (gap ++ b)) = done ++ (last ++ gap ++ more) :: after := by
  have hnil : isOpen false [] = false := rfl
  obtain ⟨done, last, hlast, hpieces⟩ := exists_pieces_append hnil a
  rw [ha] at hlast hpieces
  have hne : last ≠ [] := by
    rintro rfl
    contradiction
  have hquote : gap.any isQuote = false := not_any_isQuote_of_all_isSeparator hgap
  -- inside quotes the separators do not end the piece
  have hgo : pieces true last (gap ++ b) = pieces true (last ++ gap) b := by
    rw [pieces_append (isSolid_of_not_any_isQuote hquote), isOpen_of_not_any_isQuote hquote]
  have hne' : last ++ gap ≠ [] := by simp [hne]
  obtain ⟨more, after, hafter⟩ := exists_pieces_eq_cons hne' true b
  refine ⟨done, last, more, after, ?_, ?_⟩
  · simpa [keep_of_ne_nil hne] using hpieces []
  · rw [hpieces, hgo, hafter]

end Scanner

/-- **Filter strings with separators between them.** If the first one has an even number of quotes,
the terms are those of both, in order. If it has an odd number, its terms but the last one come
first, and the term after them is written as the last one, the separators, and more.

**Proof sketch.** The parity of the quotes says whether the text leaves a quote open. Terms are
those of pieces, and a term is written as its piece. -/
theorem parseTerms?_append {gap : String} (hne : gap ≠ "")
    (hgap : gap.toList.all isSeparator = true) (a b : String) :
    (Even (a.toList.count '"') → ∃ terms others,
      parseTerms? a = some terms ∧ parseTerms? b = some others ∧
        parseTerms? (a ++ gap ++ b) = some (terms ++ others)) ∧
    (Odd (a.toList.count '"') → ∃ before last next after,
      parseTerms? a = some (before ++ [last]) ∧
        parseTerms? (a ++ gap ++ b) = some (before ++ next :: after) ∧
          (last.render ++ gap).toList <+: next.render.toList) := by
  have htext : (a ++ gap ++ b).toList = a.toList ++ (gap.toList ++ b.toList) := by simp
  constructor
  · intro heven
    have hclosed := (Quotes.isOpen_eq_false_iff a.toList).2 heven
    have hne' : gap.toList ≠ [] := by simpa using hne
    refine ⟨Scanner.terms a, Scanner.terms b, parseTerms?_eq_terms a, parseTerms?_eq_terms b, ?_⟩
    rw [parseTerms?_eq_terms, Scanner.terms, htext, Scanner.pieces_append_gap hclosed hgap hne',
      List.map_append]
    rfl
  · intro hodd
    have hopen : Quotes.isOpen false a.toList = true := by
      rw [← Nat.not_even_iff_odd, ← Quotes.isOpen_eq_false_iff] at hodd
      simpa using hodd
    obtain ⟨done, last, more, after, hfirst, hboth⟩ :=
      Scanner.exists_pieces_open_append hopen hgap b.toList
    refine ⟨done.map Term.ofPiece, Term.ofPiece last, Term.ofPiece (last ++ gap.toList ++ more),
      after.map Term.ofPiece, ?_, ?_, ?_⟩
    · rw [parseTerms?_eq_terms, Scanner.terms, hfirst, List.map_append]
      rfl
    · rw [parseTerms?_eq_terms, Scanner.terms, htext, hboth, List.map_append]
      rfl
    · rw [Term.render_ofPiece, Term.render_ofPiece, String.toList_append, String.toList_ofList,
        String.toList_ofList]
      exact List.prefix_append _ _

/-- Two separators between a text with a quoted space and a term, and between a text with an open
quote and a term. -/
theorem parseTerms?_append_two :
    " \t" ≠ "" ∧ " \t".toList.all isSeparator = true ∧
      Even ("name=\"a b\" x".toList.count '"') ∧
      (∃ terms others, parseTerms? "name=\"a b\" x" = some terms ∧
        parseTerms? "rows=10" = some others ∧
          parseTerms? ("name=\"a b\" x" ++ " \t" ++ "rows=10") = some (terms ++ others)) ∧
      Odd ("x name=\"a".toList.count '"') ∧
      ∃ before last next after, parseTerms? "x name=\"a" = some (before ++ [last]) ∧
        parseTerms? ("x name=\"a" ++ " \t" ++ "b\" y") = some (before ++ next :: after) ∧
          (last.render ++ " \t").toList <+: next.render.toList := by
  have hne : " \t" ≠ "" := by decide
  have hgap : " \t".toList.all isSeparator = true := by decide
  have heven : Even ("name=\"a b\" x".toList.count '"') := by decide
  have hodd : Odd ("x name=\"a".toList.count '"') := by decide
  have hclosed := (parseTerms?_append hne hgap "name=\"a b\" x" "rows=10").1 heven
  have hopen := (parseTerms?_append hne hgap "x name=\"a" "b\" y").2 hodd
  exact ⟨hne, hgap, heven, hclosed, hodd, hopen⟩

end QueryFilter
