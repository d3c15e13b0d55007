import QueryFilter.Peg.Pattern
import QueryFilter.Proofs.Scanner

set_option relaxedAutoImplicit false
set_option autoImplicit false

/-!
# Layouts of filter strings

A filter string is laid out as gaps and pieces in turn. Gaps are made of separators; pieces are
solid, not empty, and end where the text ends or where a separator counts. Each piece has a place in
the text, counted in bytes.

## Main definitions

* `QueryFilter.Piece` — a piece with its place.
* `QueryFilter.Layout` — the pieces of a text that starts at a place.

## Main results

* `QueryFilter.Layout.pieces_eq` — the scanner finds the pieces of a layout.
-/

namespace QueryFilter

open Peg (utf8Length)

/-- A piece of a filter string and the place where it starts. -/
structure Piece where
  start : Nat
  text : List Char

/-- The pieces of a text that starts at a place. -/
inductive Layout : Nat → List Char → List Piece → Prop
  /-- Separators alone hold no piece. -/
  | gap {pos : Nat} {gap : List Char} (hgap : gap.all isSeparator = true) : Layout pos gap []
  /-- A gap, perhaps an empty one, then a piece, then the layout of what is left. -/
  | piece {pos : Nat} {gap text rest : List Char} {pieces : List Piece}
      (hgap : gap.all isSeparator = true) (hne : text ≠ [])
      (hsolid : Quotes.isSolid false text = true)
      (hend : Quotes.Ends (Quotes.isOpen false text) rest)
      (hrest : Layout (pos + utf8Length gap + utf8Length text) rest pieces) :
      Layout pos (gap ++ (text ++ rest)) (⟨pos + utf8Length gap, text⟩ :: pieces)

namespace Layout

/-- The scanner finds the pieces of a layout.

**Proof sketch.** Induction on the layout. The scanner skips the gap, and the piece ends where the
layout says that it does. -/
theorem pieces_eq {pos : Nat} {text : List Char} {pieces : List Piece}
    (h : Layout pos text pieces) : Scanner.pieces false [] text = pieces.map Piece.text := by
  induction h with
  | gap hgap =>
    have hskip := Scanner.pieces_gap hgap []
    rw [List.append_nil] at hskip
    rw [hskip]
    rfl
  | piece hgap hne hsolid hend hrest ih =>
    rw [Scanner.pieces_gap hgap, Scanner.pieces_piece hne hsolid hend, ih, List.map_cons]

end Layout

end QueryFilter
