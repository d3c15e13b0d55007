import Mathlib.Data.List.TakeWhile
import QueryFilter.Proofs.Layout
import QueryFilter.Proofs.Matching

set_option relaxedAutoImplicit false
set_option autoImplicit false

/-!
# Parse trees of filter strings

A term of the grammar takes the longest solid text and is taken apart at its relation. A filter
always takes the whole text: its trees are those of the pieces of a layout, in order and with their
places, and after them stands the end of the text.

## Main definitions

* `QueryFilter.Grammar.partTrees`, `QueryFilter.Grammar.termTree` — the trees that a piece leaves.
* `QueryFilter.Grammar.filterTree` — the tree that the pieces of a text leave.

## Main results

* `QueryFilter.Grammar.run_term` — a term is the longest solid text.
* `QueryFilter.Grammar.run_filter` — every text is a filter, and some layout gives its trees.
-/

namespace QueryFilter

namespace Grammar

open Peg (Pattern Match utf8Length)
open Quotes

/-- The tree of a keyword; an empty one leaves none. -/
def keywordTrees (pos : Nat) (text : List Char) : List (Peg.Tree Rule) :=
  if text = [] then [] else [.node .keyword pos text []]

/-- The tree of a value; an empty one leaves none. -/
def valueTrees (pos : Nat) (text : List Char) : List (Peg.Tree Rule) :=
  if text = [] then [] else [.node .value pos text []]

/-- The trees of the parts of a piece. -/
def partTrees (pos : Nat) (piece : List Char) : List (Peg.Tree Rule) :=
  match Scanner.marker? piece with
  | none => [.node .value pos piece []]
  | some (text, r, rest) =>
    keywordTrees pos text ++ .node .relation (pos + utf8Length text) [r.toChar] [] ::
      valueTrees (pos + utf8Length text + utf8Length [r.toChar]) rest

/-- The tree of a piece. -/
def termTree (pos : Nat) (piece : List Char) : Peg.Tree Rule :=
  .node .term pos piece (partTrees pos piece)

/-- The trees of pieces, in order. -/
def pieceTrees (pieces : List Piece) : List (Peg.Tree Rule) :=
  pieces.map fun piece => termTree piece.start piece.text

/-- The tree of a text with the given pieces. -/
def filterTree (text : List Char) (pieces : List Piece) : Peg.Tree Rule :=
  .node .filter 0 text (pieceTrees pieces ++ [.node .endOfInput (utf8Length text) [] []])

/-! ## Terms -/

/-- A value that need not be there takes the longest solid text, even an empty one. -/
theorem run_opt_value (pos : Nat) (text : List Char) :
    (Pattern.opt value).run pos text
      = some ⟨valueTrees pos (takeSolid false text), takeSolid false text,
          dropSolid false text⟩ := by
  rw [Pattern.run_opt, run_value]
  by_cases h : takeSolid false text = []
  · have hsplit := takeSolid_append_dropSolid false text
    rw [h, List.nil_append] at hsplit
    rw [if_pos h, h, hsplit]
    rfl
  · rw [if_neg h, valueTrees, if_neg h]

/-- A relation with what follows it, after the text in front of it has been taken. -/
theorem run_relation_opt_value (pos : Nat) (r : Relation) (rest : List Char) :
    (Pattern.seq relation (.opt value)).run pos (r.toChar :: rest)
      = some ⟨.node .relation pos [r.toChar] [] ::
            valueTrees (pos + utf8Length [r.toChar]) (takeSolid false rest),
          r.toChar :: takeSolid false rest, dropSolid false rest⟩ := by
  rw [Pattern.run_seq_of_some (run_relation_toChar pos r rest) (run_opt_value _ rest)]
  rfl

/-- Where a text has no relation, it does not start with a relation character. -/
theorem run_relation_of_marker?_eq_none {text : List Char} (h : Scanner.marker? text = none)
    (pos : Nat) : relation.run pos text = none := by
  apply run_relation_of_none
  intro c hc
  cases hr : Relation.ofChar? c with
  | none => rfl
  | some r =>
    cases text with
    | nil => contradiction
    | cons d rest =>
      have hd : d = c := by simpa using hc
      have hchar := Relation.ofChar?_eq_some_iff.1 hr
      exact absurd (by rw [hd, hchar]; rfl)
        (Scanner.marker?_eq_none_iff.1 h [] rest r rfl)

/-- Where a text has no relation, no relation follows its keyword characters. -/
theorem run_keyword_of_marker?_eq_none {text : List Char} (h : Scanner.marker? text = none)
    (pos : Nat) : (Pattern.seq keyword (.seq relation (.opt value))).run pos text = none := by
  by_cases hk : text.takeWhile Keyword.isChar = []
  · apply Pattern.run_seq_of_none
    rw [run_keyword, if_pos hk]
  · have hkeyword := run_keyword pos text
    rw [if_neg hk] at hkeyword
    apply Pattern.run_seq_of_some_of_none hkeyword
    apply Pattern.run_seq_of_none
    apply run_relation_of_none
    intro c hc
    rw [Scanner.marker?] at h
    split at h
    · next hdrop =>
      rw [hdrop] at hc
      contradiction
    · next d rest hdrop =>
      rw [hdrop] at hc
      have hd : d = c := by simpa using hc
      rw [← hd]
      simpa using h

/-- Keyword characters before a relation are all taken as a keyword. -/
theorem run_keyword_append {text : List Char} (hk : text.all Keyword.isChar = true)
    (hne : text ≠ []) (pos : Nat) (r : Relation) (rest : List Char) :
    keyword.run pos (text ++ r.toChar :: rest)
      = some ⟨[.node .keyword pos text []], text, r.toChar :: rest⟩ := by
  have hall : ∀ c ∈ text, Keyword.isChar c = true := by simpa using hk
  have htake : (text ++ r.toChar :: rest).takeWhile Keyword.isChar = text := by
    rw [List.takeWhile_append_of_pos hall, List.takeWhile_cons, Scanner.isChar_toChar]
    simp
  have hdrop : (text ++ r.toChar :: rest).dropWhile Keyword.isChar = r.toChar :: rest := by
    rw [List.dropWhile_append_of_pos hall, List.dropWhile_cons, Scanner.isChar_toChar]
    simp
  rw [run_keyword, htake, if_neg hne, hdrop]

/-- The longest solid text at a relation: the keyword and the relation belong to it. -/
theorem takeSolid_marker {text : List Char} (hk : text.all Keyword.isChar = true) (r : Relation)
    (rest : List Char) :
    takeSolid false (text ++ r.toChar :: rest) = text ++ r.toChar :: takeSolid false rest := by
  have hsolid : isSolid false (text ++ [r.toChar]) = true :=
    isSolid_of_not_any_isSeparator (Scanner.not_any_isSeparator_marker hk r) false
  rw [List.append_cons, takeSolid_append hsolid,
    isOpen_of_not_any_isQuote (Scanner.not_any_isQuote_marker hk r), ← List.append_cons]

/-- What comes after the longest solid text at a relation. -/
theorem dropSolid_marker {text : List Char} (hk : text.all Keyword.isChar = true) (r : Relation)
    (rest : List Char) :
    dropSolid false (text ++ r.toChar :: rest) = dropSolid false rest := by
  have hsolid : isSolid false (text ++ [r.toChar]) = true :=
    isSolid_of_not_any_isSeparator (Scanner.not_any_isSeparator_marker hk r) false
  rw [List.append_cons, dropSolid_append hsolid,
    isOpen_of_not_any_isQuote (Scanner.not_any_isQuote_marker hk r)]

/-- The longest solid text has no relation where the text has none. -/
theorem marker?_takeSolid_eq_none {text : List Char} (h : Scanner.marker? text = none) :
    Scanner.marker? (takeSolid false text) = none := by
  rw [Scanner.marker?_eq_none_iff] at h ⊢
  intro k rest r hk heq
  apply h k (rest ++ dropSolid false text) r hk
  have hsplit := takeSolid_append_dropSolid false text
  rw [heq, List.append_assoc] at hsplit
  exact hsplit.symm

/-- **A term is the longest solid text**, if that is not empty, and is taken apart at its relation.

**Proof sketch.** Take the text apart at its relation. If it has one, the keyword and the relation
belong to the longest solid text and the value is the rest of it; an empty keyword makes the first
alternative fail and the second one match. If it has none, only the third alternative can match. -/
theorem run_term (pos : Nat) (text : List Char) :
    term.run pos text
      = if takeSolid false text = [] then none
        else some ⟨[termTree pos (takeSolid false text)], takeSolid false text,
          dropSolid false text⟩ := by
  cases hm : Scanner.marker? text with
  | none =>
    rw [term, Pattern.run_node, Pattern.run_alt_of_none (run_keyword_of_marker?_eq_none hm pos),
      Pattern.run_alt_of_none
        (Pattern.run_seq_of_none (run_relation_of_marker?_eq_none hm pos)), run_value]
    split
    · rfl
    · rw [Option.map_some, termTree, partTrees, marker?_takeSolid_eq_none hm]
  | some m =>
    obtain ⟨k, r, rest⟩ := m
    obtain ⟨rfl, hk⟩ := Scanner.marker?_eq_some_iff.1 hm
    have hmarker : Scanner.marker? (k ++ r.toChar :: takeSolid false rest)
        = some (k, r, takeSolid false rest) := Scanner.marker?_eq_some_iff.2 ⟨rfl, hk⟩
    have hne : k ++ r.toChar :: takeSolid false rest ≠ [] := by simp
    rw [takeSolid_marker hk, dropSolid_marker hk, if_neg hne, termTree, partTrees, hmarker]
    by_cases hnil : k = []
    · subst hnil
      have hnone : keyword.run pos ([] ++ r.toChar :: rest) = none := by
        rw [run_keyword, List.nil_append, List.takeWhile_cons, Scanner.isChar_toChar]
        rfl
      have hrun := run_relation_opt_value pos r rest
      rw [term, Pattern.run_node, Pattern.run_alt_of_none (Pattern.run_seq_of_none hnone),
        List.nil_append, Pattern.run_alt_of_some hrun, Option.map_some]
      simp [keywordTrees]
    · have hkeyword := run_keyword_append hk hnil pos r rest
      have hrun := run_relation_opt_value (pos + utf8Length k) r rest
      rw [term, Pattern.run_node, Pattern.run_alt_of_some (Pattern.run_seq_of_some hkeyword hrun),
        Option.map_some]
      simp [Match.append, keywordTrees, hnil]

/-- A term does not match where no solid text starts. -/
theorem run_term_eq_none_iff {pos : Nat} {text : List Char} :
    term.run pos text = none ↔ Ends false text := by
  rw [run_term, ← takeSolid_eq_nil_iff]
  split
  · next h => simp [h]
  · next h => simp [h]

/-- What a term takes is a piece, and leaves the tree of that piece. -/
theorem run_term_of_some {pos : Nat} {text : List Char} {m : Match Rule}
    (h : term.run pos text = some m) :
    m.trees = [termTree pos m.taken] ∧ m.taken ≠ [] ∧ isSolid false m.taken = true ∧
      Ends (isOpen false m.taken) m.rest := by
  rw [run_term] at h
  split at h
  · contradiction
  · next hne =>
    rw [Option.some.injEq] at h
    subst h
    exact ⟨rfl, hne, isSolid_takeSolid false text, ends_dropSolid false text⟩

/-! ## Lists of terms -/

/-- A term with the separators in front of it. -/
def nextTerm : Pattern Rule :=
  .seq (.plus separator) term

/-- After its leading separators a text is empty or starts with another character. -/
theorem dropWhile_eq_nil_of_ends {text : List Char}
    (h : Ends false (text.dropWhile isSeparator)) : text.dropWhile isSeparator = [] := by
  have hhead := List.head?_dropWhile_not isSeparator text
  cases hdrop : text.dropWhile isSeparator with
  | nil => rfl
  | cons c rest =>
    rw [hdrop] at h hhead
    obtain ⟨-, hc⟩ := h
    rw [List.head?_cons] at hhead
    simp [hc] at hhead

/-- The match of separators in front of a term. -/
theorem run_plus_separator {c : Char} (hc : isSeparator c = true) (pos : Nat) (rest : List Char) :
    (Pattern.plus separator).run pos (c :: rest)
      = some ⟨[], (c :: rest).takeWhile isSeparator, (c :: rest).dropWhile isSeparator⟩ := by
  have hne : (c :: rest).takeWhile isSeparator ≠ [] := by simp [hc]
  rw [Pattern.run_plus_of_run_eq run_separator, Pattern.run_plus_char, if_neg hne]

/-- Where no further term comes, a text that may follow a piece is a gap. -/
theorem all_isSeparator_of_run_nextTerm {pos : Nat} {text : List Char} (hend : Ends false text)
    (h : nextTerm.run pos text = none) : text.all isSeparator = true := by
  cases text with
  | nil => rfl
  | cons c rest =>
    have hgap := run_plus_separator hend.2 pos rest
    cases hterm : term.run (pos + utf8Length ((c :: rest).takeWhile isSeparator))
        ((c :: rest).dropWhile isSeparator) with
    | none =>
      have hnil := dropWhile_eq_nil_of_ends (run_term_eq_none_iff.1 hterm)
      simpa using List.dropWhile_eq_nil_iff.1 hnil
    | some m =>
      rw [nextTerm, Pattern.run_seq_of_some hgap hterm] at h
      contradiction

/-- A further term is a gap and a piece. -/
theorem run_nextTerm_of_some {pos : Nat} {text : List Char} {m : Match Rule}
    (h : nextTerm.run pos text = some m) :
    ∃ gap piece, gap.all isSeparator = true ∧ m.taken = gap ++ piece ∧
      m.trees = [termTree (pos + utf8Length gap) piece] ∧ piece ≠ [] ∧
      isSolid false piece = true ∧ Ends (isOpen false piece) m.rest := by
  cases text with
  | nil => contradiction
  | cons c rest =>
    cases hc : isSeparator c with
    | false =>
      have hnone : (Pattern.plus separator).run pos (c :: rest) = none := by
        rw [Pattern.run_plus_of_run_eq run_separator, Pattern.run_plus_char,
          if_pos (by simp [hc])]
      rw [nextTerm, Pattern.run_seq_of_none hnone] at h
      contradiction
    | true =>
      have hgap := run_plus_separator hc pos rest
      cases hterm : term.run (pos + utf8Length ((c :: rest).takeWhile isSeparator))
          ((c :: rest).dropWhile isSeparator) with
      | none =>
        rw [nextTerm, Pattern.run_seq_of_some_of_none hgap hterm] at h
        contradiction
      | some n =>
        obtain ⟨htrees, hne, hsolid, hend⟩ := run_term_of_some hterm
        rw [nextTerm, Pattern.run_seq_of_some hgap hterm, Option.some.injEq] at h
        subst h
        refine ⟨_, n.taken, List.all_takeWhile, rfl, ?_, hne, hsolid, hend⟩
        rw [← htrees]
        rfl

/-- **Further terms lay out the rest of a text**, up to a gap at its end.

**Proof sketch.** Induction along the repetition. Where no further term comes the text is a gap;
otherwise a gap and a piece come first, and the repetition goes on after the piece, where the text
is again one that may follow a piece. -/
theorem layout_of_iterate_nextTerm (pos : Nat) {text : List Char} (hend : Ends false text)
    {bound : Nat} (h : text.length ≤ bound) :
    ∃ pieces, Layout pos text pieces ∧
      (Pattern.iterate nextTerm.run bound pos text).trees = pieceTrees pieces ∧
      (Pattern.iterate nextTerm.run bound pos text).rest.all isSeparator = true := by
  refine Pattern.iterate_induction
    (motive := fun pos text m => Ends false text → ∃ pieces, Layout pos text pieces ∧
      m.trees = pieceTrees pieces ∧ m.rest.all isSeparator = true) ?_ ?_ ?_ pos h hend
  · intro pos text m hm
    obtain ⟨gap, piece, -, htaken, -, hne, -⟩ := run_nextTerm_of_some hm
    exact Pattern.length_rest_lt hm (by simp [htaken, hne])
  · intro pos text hm hend
    have hgap := all_isSeparator_of_run_nextTerm hend hm
    exact ⟨[], .gap hgap, rfl, hgap⟩
  · intro pos text m n hm ih _
    obtain ⟨gap, piece, hgap, htaken, htrees, hne, hsolid, hend⟩ := run_nextTerm_of_some hm
    obtain ⟨pieces, hlayout, hn, hrest⟩ := ih hend.of_closed
    refine ⟨⟨pos + utf8Length gap, piece⟩ :: pieces, ?_, ?_, hrest⟩
    · rw [← Pattern.taken_append_rest hm, htaken, List.append_assoc]
      rw [htaken, Peg.utf8Length_append, ← Nat.add_assoc] at hlayout
      exact .piece hgap hne hsolid hend hlayout
    · rw [Match.append, htrees, hn]
      rfl

/-- The terms of a text without separators in front, laid out after a gap.

**Proof sketch.** Where no term matches the text is empty. Otherwise the first piece is what the
term takes, and the others are laid out by the repetition after it. -/
theorem run_opt_terms (start : Nat) {gap text : List Char} (hgap : gap.all isSeparator = true)
    (hhead : Ends false text → text = []) :
    ∃ pieces m, Layout start (gap ++ text) pieces ∧ m.trees = pieceTrees pieces ∧
      m.rest.all isSeparator = true ∧
      (Pattern.opt (.seq term (.star nextTerm))).run (start + utf8Length gap) text = some m := by
  cases hterm : term.run (start + utf8Length gap) text with
  | none =>
    have hnil := hhead (run_term_eq_none_iff.1 hterm)
    subst hnil
    refine ⟨[], .empty [], ?_, rfl, rfl, ?_⟩
    · rw [List.append_nil]
      exact .gap hgap
    · rw [Pattern.run_opt, Pattern.run_seq_of_none hterm]
  | some m =>
    obtain ⟨htrees, hne, hsolid, hend⟩ := run_term_of_some hterm
    obtain ⟨pieces, hlayout, hn, hrest⟩ := layout_of_iterate_nextTerm
      (start + utf8Length gap + utf8Length m.taken) hend.of_closed (Nat.le_refl _)
    have hstar := Pattern.run_star nextTerm (start + utf8Length gap + utf8Length m.taken) m.rest
    refine ⟨⟨start + utf8Length gap, m.taken⟩ :: pieces, m.append _, ?_, ?_, hrest,
      by rw [Pattern.run_opt, Pattern.run_seq_of_some hterm hstar]⟩
    · rw [← Pattern.taken_append_rest hterm]
      exact .piece hgap hne hsolid hend hlayout
    · rw [Match.append, htrees, hn]
      rfl

/-- **Every text is a filter**: the grammar takes all of it, and the trees are those of its pieces.

**Proof sketch.** The leading separators are the first gap. The terms lay out what follows, and what
they leave is a gap again, so that the separators at the end take it and the end of the text is
reached. -/
theorem run_filter (text : List Char) :
    ∃ pieces, Layout 0 text pieces ∧
      filter.run 0 text = some ⟨[filterTree text pieces], text, []⟩ := by
  have hgap : (text.takeWhile isSeparator).all isSeparator = true := List.all_takeWhile
  obtain ⟨pieces, m, hlayout, htrees, hall, hterms⟩ :=
    run_opt_terms 0 hgap dropWhile_eq_nil_of_ends
  rw [List.takeWhile_append_dropWhile] at hlayout
  refine ⟨pieces, hlayout, ?_⟩
  have hrest : m.rest.takeWhile isSeparator = m.rest ∧ m.rest.dropWhile isSeparator = [] := by
    have hchars : ∀ c ∈ m.rest, isSeparator c = true := by simpa using hall
    exact ⟨List.takeWhile_eq_self_iff.2 hchars, List.dropWhile_eq_nil_iff.2 hchars⟩
  have hlast := run_star_separator
    (0 + utf8Length (text.takeWhile isSeparator) + utf8Length m.taken) m.rest
  rw [hrest.1, hrest.2] at hlast
  have hfinish : ∀ pos, (Pattern.leaf Rule.endOfInput .finish).run pos []
      = some ⟨[.node .endOfInput pos [] []], [], []⟩ := fun _ => rfl
  have htext : text.takeWhile isSeparator ++ (m.taken ++ m.rest) = text := by
    rw [Pattern.taken_append_rest hterms, List.takeWhile_append_dropWhile]
  have hlength := congrArg utf8Length htext
  rw [Peg.utf8Length_append, Peg.utf8Length_append, ← Nat.add_assoc] at hlength
  have hrun := Pattern.run_seq_of_some (run_star_separator 0 text)
    (Pattern.run_seq_of_some hterms (Pattern.run_seq_of_some hlast (hfinish _)))
  have hfilter : filter = .node .filter (.seq (.star separator)
      (.seq (.opt (.seq term (.star nextTerm)))
        (.seq (.star separator) (.leaf .endOfInput .finish)))) := rfl
  rw [hfilter, Pattern.run_node, hrun, Option.map_some, Option.some.injEq]
  simp only [Match.append, List.append_nil, List.nil_append, htext, Nat.zero_add, hlength, htrees]
  rfl

end Grammar

end QueryFilter
