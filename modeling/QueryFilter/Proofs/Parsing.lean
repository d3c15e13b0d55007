import QueryFilter.Proofs.ParseTree

set_option relaxedAutoImplicit false
set_option autoImplicit false

/-!
# Parsing is scanning

The grammar reads every text, and reads it as the scanner does.

## Main results

* `QueryFilter.Term.ofTree_termTree` — the term of a tree is the term of its piece.
* `QueryFilter.parseTerms?_eq_terms` — the terms of a filter string are those of the scanner.
* `QueryFilter.parseTerms?_eq_scan` — the same, with what becomes of an open quote.
-/

namespace QueryFilter

namespace Grammar

/-- The parts of a piece without a relation. -/
theorem partText?_termTree_of_none {piece : List Char} (h : Scanner.marker? piece = none)
    (pos : Nat) :
    partText? (termTree pos piece) .keyword = none ∧
      partText? (termTree pos piece) .relation = none ∧
      partText? (termTree pos piece) .value = some piece := by
  have hparts : (termTree pos piece).inner = [.node .value pos piece []] := by
    rw [termTree, Peg.Tree.inner, partTrees, h]
  refine ⟨?_, ?_, ?_⟩
  · rw [partText?, hparts]
    rfl
  · rw [partText?, hparts]
    rfl
  · rw [partText?, hparts]
    rfl

/-- The parts of a piece with a relation: its keyword and its value leave no tree when they are
empty. -/
theorem partText?_termTree_of_some {piece keyword value : List Char} {relation : Relation}
    (h : Scanner.marker? piece = some (keyword, relation, value)) (pos : Nat) :
    partText? (termTree pos piece) .keyword = (if keyword = [] then none else some keyword) ∧
      partText? (termTree pos piece) .relation = some [relation.toChar] ∧
      (partText? (termTree pos piece) .value).getD [] = value := by
  have hparts : (termTree pos piece).inner = partTrees pos piece := rfl
  simp only [partText?, hparts, partTrees, h, keywordTrees, valueTrees, List.find?_append]
  refine ⟨?_, ?_, ?_⟩
  · by_cases hk : keyword = []
    · by_cases hv : value = []
      · simp [hk, hv, Peg.Tree.rule]
      · simp [hk, hv, Peg.Tree.rule]
    · simp [hk, Peg.Tree.rule, Peg.Tree.text]
  · by_cases hk : keyword = []
    · simp [hk, Peg.Tree.rule, Peg.Tree.text]
    · simp [hk, Peg.Tree.rule, Peg.Tree.text]
  · by_cases hk : keyword = []
    · by_cases hv : value = []
      · simp [hk, hv, Peg.Tree.rule]
      · simp [hk, hv, Peg.Tree.rule, Peg.Tree.text]
    · by_cases hv : value = []
      · simp [hk, hv, Peg.Tree.rule]
      · simp [hk, hv, Peg.Tree.rule, Peg.Tree.text]

end Grammar

namespace Term

/-- The term of a tree is the term of its piece. -/
theorem ofTree_termTree (pos : Nat) (piece : List Char) :
    ofTree (Grammar.termTree pos piece) = ofPiece piece := by
  cases hm : Scanner.marker? piece with
  | none =>
    obtain ⟨hkeyword, hrelation, hvalue⟩ := Grammar.partText?_termTree_of_none hm pos
    rw [ofTree, hkeyword, hrelation, hvalue, ofPiece_of_none hm]
    rfl
  | some m =>
    obtain ⟨keyword, relation, value⟩ := m
    obtain ⟨hkeyword, hrelation, hvalue⟩ := Grammar.partText?_termTree_of_some hm pos
    have hchar : ([relation.toChar].head?.bind Relation.ofChar?) = some relation := by simp
    rw [ofTree, hkeyword, hrelation, hvalue, ofPiece_of_some hm, Option.bind_some, hchar]
    by_cases hk : keyword = []
    · subst hk
      rfl
    · rw [if_neg hk]
      rfl

/-- The terms of the tree of a text are the terms of its pieces. -/
theorem listOfTree_filterTree (text : List Char) (pieces : List Piece) :
    listOfTree (Grammar.filterTree text pieces) = (pieces.map Piece.text).map ofPiece := by
  have hterms : (Grammar.pieceTrees pieces).filter (·.rule == .term)
      = Grammar.pieceTrees pieces := by
    rw [List.filter_eq_self]
    intro tree htree
    obtain ⟨piece, -, rfl⟩ := List.mem_map.1 htree
    rfl
  have hinner : (Grammar.filterTree text pieces).inner.filter (·.rule == .term)
      = Grammar.pieceTrees pieces := by
    rw [Grammar.filterTree, Peg.Tree.inner, List.filter_append, hterms]
    exact List.append_nil _
  rw [listOfTree, hinner, Grammar.pieceTrees, List.map_map, List.map_map]
  apply List.map_congr_left
  intro piece _
  exact ofTree_termTree piece.start piece.text

end Term

/-- **Every text is a filter string**, and its terms are those of the scanner.

**Proof sketch.** The grammar takes the whole text and leaves the trees of a layout. Their terms are
the terms of its pieces, and the scanner finds the same pieces. -/
theorem parseTerms?_eq_terms (text : String) : parseTerms? text = some (Scanner.terms text) := by
  obtain ⟨pieces, hlayout, hrun⟩ := Grammar.run_filter text.toList
  rw [parseTerms?, hrun, Option.map_some, Option.some.injEq, Scanner.terms, hlayout.pieces_eq,
    ← Term.listOfTree_filterTree text.toList]
  exact List.append_nil _

/-- **The grammar refuses nothing and reads as the scanner does.** The terms of a text are those of
its pieces, in order; when a quote is left open, the last piece runs to the end of the text,
separators included. -/
theorem parseTerms?_eq_scan (text : String) :
    parseTerms? text = some ((Scanner.pieces false [] text.toList).map Term.ofPiece) ∧
      (¬ Even (text.toList.count '"') → ∃ before last,
        Scanner.pieces false [] text.toList = before ++ [last] ∧ last <:+ text.toList ∧
          ¬ Even (last.count '"')) := by
  refine ⟨parseTerms?_eq_terms text, ?_⟩
  intro hodd
  have hopen : Quotes.isOpen false text.toList = true := by
    rw [← Quotes.isOpen_eq_false_iff] at hodd
    simpa using hodd
  have hnil : Quotes.isOpen false [] = false := rfl
  obtain ⟨before, last, hpieces, hsuffix, hlast⟩ := Scanner.pieces_of_isOpen hnil hopen
  refine ⟨before, last, hpieces, hsuffix, ?_⟩
  rw [← Quotes.isOpen_eq_false_iff, hlast]
  simp

end QueryFilter
