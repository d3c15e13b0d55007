import QueryFilter.Proofs.Parsing

set_option relaxedAutoImplicit false
set_option autoImplicit false

/-!
# Places in parse trees

The parse tree of a filter string can be laid over the string. Each tree of a term stands at its
place, from one character boundary to another one, and its parts fill it without a gap. What is left
between the terms are separators, byte by byte, and there is at least one of them.

Places count bytes of UTF-8 while the grammar reads characters, so that everything is said of the
bytes of the text.

## Main definitions

* `QueryFilter.Peg.Tree.StandsIn` — a tree stands in a text at its place.
* `QueryFilter.Peg.Tiles` — trees fill the bytes from one place to another.
* `QueryFilter.SeparatorAt` — the byte at a place is a separator.
* `QueryFilter.Grammar.IsTermIn` — a tree that the term rule leaves in a text.

## Main results

* `QueryFilter.Layout.pairwise_stop_lt_start` — pieces stand apart, in order.
* `QueryFilter.Layout.separatorAt` — what lies outside all pieces separates.
* `QueryFilter.Grammar.tiles_partTrees` — the parts of a piece fill it.
* `QueryFilter.Grammar.parseTree_loses_nothing` — the parse tree of any text.
-/

namespace QueryFilter

open Peg (utf8Length)

/-! ## Bytes -/

namespace Peg

/-- The bytes of a text are those of the string with its characters. -/
theorem utf8ByteSize_ofList (text : List Char) :
    (String.ofList text).utf8ByteSize = utf8Length text := by
  induction text with
  | nil => rfl
  | cons c text ih =>
    rw [← String.size_toByteArray, String.toByteArray_ofList, List.utf8Encode_cons,
      ByteArray.size_append, List.utf8Encode_singleton, List.size_toByteArray,
      String.length_utf8EncodeChar, ← String.toByteArray_ofList, String.size_toByteArray, ih]
    rfl

/-- The bytes of a string are those of its characters. -/
theorem utf8Length_toList (text : String) : utf8Length text.toList = text.utf8ByteSize := by
  rw [← utf8ByteSize_ofList, String.ofList_toList]

/-- A text with characters has bytes. -/
theorem utf8Length_pos {text : List Char} (h : text ≠ []) : 0 < utf8Length text := by
  cases text with
  | nil => contradiction
  | cons c text =>
    have hc := c.utf8Size_pos
    rw [utf8Length]
    omega

namespace Tree

variable {ρ : Type}

/-- A tree stands in a text at its place: from one character boundary to another one, and the bytes
between them are those of its own text. -/
structure StandsIn (tree : Tree ρ) (text : String) : Prop where
  start_isValid : String.Pos.Raw.IsValid text ⟨tree.start⟩
  stop_isValid : String.Pos.Raw.IsValid text ⟨tree.stop⟩
  extract_eq : text.toByteArray.extract tree.start tree.stop
    = (String.ofList tree.text).toByteArray

/-- A tree stands in a text behind as many bytes as there are before it. -/
theorem standsIn_of_append {tree : Tree ρ} {text : String} {before after : List Char}
    (htext : text.toList = before ++ (tree.text ++ after))
    (hstart : tree.start = utf8Length before) : tree.StandsIn text := by
  have hstring : text
      = String.ofList before ++ (String.ofList tree.text ++ String.ofList after) := by
    rw [← String.ofList_append, ← String.ofList_append, ← htext, String.ofList_toList]
  have hbefore : tree.start = (String.ofList before).utf8ByteSize := by
    rw [hstart, utf8ByteSize_ofList]
  have hstop : tree.stop = tree.start + (String.ofList tree.text).utf8ByteSize := by
    rw [stop, utf8ByteSize_ofList]
  refine ⟨?_, ?_, ?_⟩
  · rw [String.Pos.Raw.isValid_iff_exists_append]
    exact ⟨_, _, hstring, congrArg String.Pos.Raw.mk hbefore⟩
  · rw [String.Pos.Raw.isValid_iff_exists_append]
    rw [← String.append_assoc] at hstring
    refine ⟨_, _, hstring, congrArg String.Pos.Raw.mk ?_⟩
    rw [String.utf8ByteSize_append, hstop, hbefore]
  · rw [← String.size_toByteArray] at hbefore hstop
    rw [hstring, String.toByteArray_append, String.toByteArray_append, ← ByteArray.append_assoc,
      hstop, hbefore, ← ByteArray.size_append, ByteArray.extract_append]
    rw [ByteArray.extract_append_eq_right rfl (ByteArray.size_append)]
    simp

end Tree

/-- Trees fill the bytes from one place to another: each of them has bytes, and the next one starts
where it stops. -/
def Tiles {ρ : Type} : Nat → List (Tree ρ) → Nat → Prop
  | start, [], stop => start = stop
  | start, tree :: trees, stop =>
    tree.start = start ∧ tree.start < tree.stop ∧ Tiles tree.stop trees stop

/-- Trees that fill a place stand in the text that theirs make up together. -/
theorem Tiles.exists_append {ρ : Type} {start stop : Nat} {trees : List (Tree ρ)}
    (h : Tiles start trees stop) {tree : Tree ρ} (htree : tree ∈ trees) :
    ∃ before after, trees.flatMap Tree.text = before ++ (tree.text ++ after) ∧
      tree.start = start + utf8Length before := by
  induction trees generalizing start with
  | nil => contradiction
  | cons first trees ih =>
    obtain ⟨hstart, -, hrest⟩ := h
    rw [List.flatMap_cons]
    rcases List.mem_cons.1 htree with rfl | htree
    · exact ⟨[], _, rfl, by rw [hstart, utf8Length_nil, Nat.add_zero]⟩
    · obtain ⟨before, after, htext, hplace⟩ := ih hrest htree
      refine ⟨first.text ++ before, after, by rw [htext, List.append_assoc], ?_⟩
      rw [hplace, Tree.stop, hstart, utf8Length_append, Nat.add_assoc]

end Peg

/-! ## Separators -/

/-- The bytes of the separators. Each of these takes one byte. -/
def separatorBytes : List UInt8 :=
  separators.map fun c => c.val.toUInt8

/-- The byte at a place of a text is a separator. -/
def SeparatorAt (text : String) (place : Nat) : Prop :=
  ∃ h : place < text.toByteArray.size, text.toByteArray[place] ∈ separatorBytes

/-- A separator takes one byte. -/
theorem utf8EncodeChar_of_isSeparator {c : Char} (hc : isSeparator c = true) :
    String.utf8EncodeChar c = [c.val.toUInt8] ∧ c.val.toUInt8 ∈ separatorBytes := by
  have hmem : c ∈ separators := by simpa [isSeparator] using hc
  refine ⟨String.utf8EncodeChar_eq_singleton ?_, List.mem_map_of_mem hmem⟩
  simp only [separators, List.mem_cons, List.not_mem_nil, or_false] at hmem
  rcases hmem with rfl | rfl | rfl | rfl
  all_goals rfl

/-- The bytes of a separator. -/
theorem utf8Length_separator {c : Char} (hc : isSeparator c = true) : utf8Length [c] = 1 := by
  rw [← Peg.utf8ByteSize_ofList, ← String.size_toByteArray, String.toByteArray_ofList,
    List.utf8Encode_singleton, (utf8EncodeChar_of_isSeparator hc).1]
  rfl

/-- The byte of a separator stands behind the bytes of the text before it. -/
theorem separatorAt_of_append {text : String} {before after : List Char} {c : Char}
    (htext : text.toList = before ++ c :: after) (hc : isSeparator c = true) :
    SeparatorAt text (utf8Length before) := by
  obtain ⟨hencode, hmem⟩ := utf8EncodeChar_of_isSeparator hc
  have hbytes : text.toByteArray
      = (String.ofList before).toByteArray ++ ([c.val.toUInt8].toByteArray
        ++ (String.ofList after).toByteArray) := by
    rw [← hencode, ← List.utf8Encode_singleton, ← String.toByteArray_ofList,
      ← String.toByteArray_append, ← String.toByteArray_append, ← String.ofList_append,
      ← String.ofList_append, List.singleton_append, ← htext, String.ofList_toList]
  have hplace : utf8Length before = (String.ofList before).toByteArray.size := by
    rw [String.size_toByteArray, Peg.utf8ByteSize_ofList]
  rw [SeparatorAt, hbytes, hplace]
  refine ⟨?_, ?_⟩
  · simp only [ByteArray.size_append, List.size_toByteArray, List.length_singleton]
    omega
  · rw [ByteArray.getElem_append_right (Nat.le_refl _), ByteArray.getElem_append_left (by simp)]
    simpa using hmem

/-- Every byte of a gap is a separator. -/
theorem separatorAt_of_gap {text : String} {before gap after : List Char}
    (htext : text.toList = before ++ (gap ++ after)) (hgap : gap.all isSeparator = true) {place : Nat}
    (hlow : utf8Length before ≤ place) (hhigh : place < utf8Length before + utf8Length gap) :
    SeparatorAt text place := by
  induction gap generalizing before with
  | nil =>
    rw [Peg.utf8Length_nil] at hhigh
    omega
  | cons c gap ih =>
    simp only [List.all_cons, Bool.and_eq_true] at hgap
    have hone := utf8Length_separator hgap.1
    by_cases hplace : place = utf8Length before
    · subst hplace
      exact separatorAt_of_append htext hgap.1
    · have hlength : utf8Length (before ++ [c]) = utf8Length before + 1 := by
        rw [Peg.utf8Length_append, hone]
      have hcons : utf8Length (c :: gap) = 1 + utf8Length gap := by
        rw [← List.singleton_append, Peg.utf8Length_append, hone]
      have hsplit : text.toList = before ++ [c] ++ (gap ++ after) := by
        rw [htext, List.append_assoc]
        rfl
      exact ih hsplit hgap.2 (by omega) (by omega)

/-! ## Pieces -/

namespace Piece

/-- The place where a piece ends. -/
def stop (piece : Piece) : Nat :=
  piece.start + utf8Length piece.text

end Piece

namespace Layout

open Quotes

variable {pos : Nat} {text : List Char} {pieces : List Piece}

/-- A piece of a layout stands behind as many bytes as there are before it. It is not empty, and
where it ends, the text ends or a separator comes. -/
theorem exists_append (h : Layout pos text pieces) {piece : Piece} (hpiece : piece ∈ pieces) :
    ∃ before after, text = before ++ (piece.text ++ after) ∧
      piece.start = pos + utf8Length before ∧ piece.text ≠ [] ∧ Ends false after := by
  induction h with
  | gap hgap => contradiction
  | @piece pos gap first rest pieces hgap hne hsolid hend hrest ih =>
    rcases List.mem_cons.1 hpiece with rfl | hpiece
    · exact ⟨gap, rest, rfl, rfl, hne, hend.of_closed⟩
    · obtain ⟨before, after, htext, hstart, hnonempty, hafter⟩ := ih hpiece
      refine ⟨gap ++ (first ++ before), after, ?_, ?_, hnonempty, hafter⟩
      · rw [htext, List.append_assoc, List.append_assoc]
      · rw [hstart, Peg.utf8Length_append, Peg.utf8Length_append]
        omega

/-- Behind a piece, the next ones start later. -/
theorem lt_start (h : Layout pos text pieces) (hend : Ends false text) {piece : Piece}
    (hpiece : piece ∈ pieces) : pos < piece.start := by
  cases h with
  | gap hgap => contradiction
  | @piece _ gap first rest pieces hgap hne hsolid hclosed hrest =>
    have hgapne : gap ≠ [] := by
      -- a piece without a gap in front would start with a separator
      rintro rfl
      cases first with
      | nil => exact hne rfl
      | cons c first =>
        obtain ⟨-, hc⟩ := hend
        simp [hc] at hsolid
    have hpos := Peg.utf8Length_pos hgapne
    rcases List.mem_cons.1 hpiece with rfl | hpiece
    · show pos < pos + utf8Length gap
      omega
    · obtain ⟨before, -, -, hstart, -⟩ := hrest.exists_append hpiece
      omega

/-- **Pieces stand apart, in order.** -/
theorem pairwise_stop_lt_start (h : Layout pos text pieces) :
    pieces.Pairwise fun first second => first.stop < second.start := by
  induction h with
  | gap hgap => exact .nil
  | piece hgap hne hsolid hend hrest ih =>
    exact List.pairwise_cons.2 ⟨fun second hsecond => hrest.lt_start hend.of_closed hsecond, ih⟩

/-- **What lies outside all pieces separates.**

**Proof sketch.** Induction on the layout. A place behind the start of the layout lies in the gap, in
the first piece or behind it; in the last case it lies in the rest of the layout. -/
theorem separatorAt {source : String} {before : List Char} (h : Layout pos text pieces)
    (hsource : source.toList = before ++ text) (hpos : pos = utf8Length before) {place : Nat}
    (hlow : pos ≤ place) (hhigh : place < source.utf8ByteSize)
    (houtside : ∀ piece ∈ pieces, ¬(piece.start ≤ place ∧ place < piece.stop)) :
    SeparatorAt source place := by
  rw [← Peg.utf8Length_toList, hsource, Peg.utf8Length_append] at hhigh
  induction h generalizing before with
  | @gap pos gap hgap =>
    have hsplit : source.toList = before ++ (gap ++ []) := by rw [hsource, List.append_nil]
    exact separatorAt_of_gap hsplit hgap (by omega) hhigh
  | @piece pos gap first rest pieces hgap hne hsolid hend hrest ih =>
    rw [List.forall_mem_cons] at houtside
    obtain ⟨houtside, hothers⟩ := houtside
    have hfirst : ¬(pos + utf8Length gap ≤ place ∧
        place < pos + utf8Length gap + utf8Length first) := houtside
    rw [Peg.utf8Length_append, Peg.utf8Length_append] at hhigh
    by_cases hinside : place < pos + utf8Length gap
    · exact separatorAt_of_gap hsource hgap (by omega) (by omega)
    · have hlength : utf8Length (before ++ (gap ++ first))
          = pos + utf8Length gap + utf8Length first := by
        rw [Peg.utf8Length_append, Peg.utf8Length_append, hpos, Nat.add_assoc]
      have hsplit : source.toList = before ++ (gap ++ first) ++ rest := by
        rw [hsource, List.append_assoc, List.append_assoc]
      exact ih hsplit hlength.symm (by omega) (by omega) hothers

/-- Where a text starts with no separator, it starts with its first piece. -/
theorem eq_cons_of_head (h : Layout pos text pieces) {c : Char} (hhead : text.head? = some c)
    (hc : isSeparator c = false) : ∃ others, pieces = ⟨pos, takeSolid false text⟩ :: others := by
  cases h with
  | gap hgap =>
    have hmem : c ∈ text := List.mem_of_mem_head? hhead
    rw [List.all_eq_true.1 hgap c hmem] at hc
    contradiction
  | @piece _ gap first rest others hgap hne hsolid hend hrest =>
    cases gap with
    | nil =>
      have htake := takeSolid_append hsolid rest
      rw [(takeSolid_eq_nil_iff _ _).2 hend, List.append_nil] at htake
      rw [List.nil_append, htake]
      exact ⟨others, rfl⟩
    | cons d gap =>
      obtain rfl : d = c := by simpa using hhead
      simp [hc] at hgap

end Layout

/-! ## Terms -/

namespace Grammar

open Peg (Tiles)

/-- The rules of the parts of a term, in order: a keyword comes with a relation, and what comes with
a relation need not have a value. -/
def termShapes : List (List Rule) :=
  [[.keyword, .relation, .value], [.keyword, .relation], [.relation, .value], [.relation], [.value]]

/-- The parts of a piece have the shape of a term. -/
theorem rules_partTrees (pos : Nat) (piece : List Char) :
    (partTrees pos piece).map Peg.Tree.rule ∈ termShapes := by
  rw [partTrees]
  split
  · show [Rule.value] ∈ termShapes
    decide
  · next text r rest hm =>
    rw [keywordTrees, valueTrees]
    by_cases htext : text = []
    · by_cases hrest : rest = []
      · rw [if_pos htext, if_pos hrest]
        show [Rule.relation] ∈ termShapes
        decide
      · rw [if_pos htext, if_neg hrest]
        show [Rule.relation, Rule.value] ∈ termShapes
        decide
    · by_cases hrest : rest = []
      · rw [if_neg htext, if_pos hrest]
        show [Rule.keyword, Rule.relation] ∈ termShapes
        decide
      · rw [if_neg htext, if_neg hrest]
        show [Rule.keyword, Rule.relation, Rule.value] ∈ termShapes
        decide

/-- The texts of the parts of a piece make up the piece. -/
theorem flatMap_text_partTrees (pos : Nat) (piece : List Char) :
    (partTrees pos piece).flatMap Peg.Tree.text = piece := by
  rw [partTrees]
  split
  · exact List.append_nil piece
  · next text r rest hm =>
    obtain ⟨rfl, -⟩ := Scanner.marker?_eq_some_iff.1 hm
    have hkeyword : (keywordTrees pos text).flatMap Peg.Tree.text = text := by
      rw [keywordTrees]
      split
      · next htext => exact htext.symm
      · exact List.append_nil text
    have hvalue (pos : Nat) : (valueTrees pos rest).flatMap Peg.Tree.text = rest := by
      rw [valueTrees]
      split
      · next hrest => exact hrest.symm
      · exact List.append_nil rest
    rw [List.flatMap_append, List.flatMap_cons, hkeyword, hvalue]
    rfl

/-- A value fills its place, if it is not empty. -/
theorem tiles_valueTrees (pos : Nat) (text : List Char) :
    Tiles pos (valueTrees pos text) (pos + utf8Length text) := by
  rw [valueTrees]
  split
  · next htext =>
    rw [htext]
    rfl
  · next htext =>
    have hpos := Peg.utf8Length_pos htext
    refine ⟨rfl, ?_, rfl⟩
    show pos < pos + utf8Length text
    omega

/-- **The parts of a piece fill it**, without a gap. -/
theorem tiles_partTrees (pos : Nat) {piece : List Char} (hne : piece ≠ []) :
    Tiles pos (partTrees pos piece) (pos + utf8Length piece) := by
  rw [partTrees]
  split
  · have hvalue := tiles_valueTrees pos piece
    rwa [valueTrees, if_neg hne] at hvalue
  · next text r rest hm =>
    obtain ⟨rfl, -⟩ := Scanner.marker?_eq_some_iff.1 hm
    have hmarker : 0 < utf8Length [r.toChar] := Peg.utf8Length_pos (List.cons_ne_nil _ _)
    have hlength : pos + utf8Length (text ++ r.toChar :: rest)
        = pos + utf8Length text + utf8Length [r.toChar] + utf8Length rest := by
      rw [← List.singleton_append, Peg.utf8Length_append, Peg.utf8Length_append]
      omega
    have hrelation : Tiles (pos + utf8Length text)
        (.node .relation (pos + utf8Length text) [r.toChar] [] ::
          valueTrees (pos + utf8Length text + utf8Length [r.toChar]) rest)
        (pos + utf8Length (text ++ r.toChar :: rest)) := by
      refine ⟨rfl, ?_, ?_⟩
      · show pos + utf8Length text < pos + utf8Length text + utf8Length [r.toChar]
        omega
      · rw [hlength]
        exact tiles_valueTrees _ rest
    rw [keywordTrees]
    split
    · next htext =>
      subst htext
      exact hrelation
    · next htext =>
      have hpos := Peg.utf8Length_pos htext
      refine ⟨rfl, ?_, hrelation⟩
      show pos < pos + utf8Length text
      omega

/-- Parts have no parts of their own. -/
theorem inner_of_mem_partTrees {pos : Nat} {piece : List Char} {tree : Peg.Tree Rule}
    (h : tree ∈ partTrees pos piece) : tree.inner = [] := by
  rw [partTrees] at h
  split at h
  · rw [List.mem_singleton.1 h]
    rfl
  · next text r rest hm =>
    rw [keywordTrees, valueTrees, List.mem_append, List.mem_cons] at h
    rcases h with h | rfl | h
    · split at h
      · contradiction
      · rw [List.mem_singleton.1 h]
        rfl
    · rfl
    · split at h
      · contradiction
      · rw [List.mem_singleton.1 h]
        rfl

/-- A tree that the term rule leaves in a text. -/
structure IsTermIn (text : String) (tree : Peg.Tree Rule) : Prop where
  rule_eq : tree.rule = .term
  start_lt_stop : tree.start < tree.stop
  standsIn : tree.StandsIn text
  /-- Behind the term the text ends or is separated from what follows. -/
  ends : tree.stop = text.utf8ByteSize ∨ SeparatorAt text tree.stop
  shape : tree.inner.map Peg.Tree.rule ∈ termShapes
  tiles : Tiles tree.start tree.inner tree.stop
  /-- The parts of the term are leaves and stand in the text as well. -/
  parts : ∀ part ∈ tree.inner, part.inner = [] ∧ part.StandsIn text
  /-- The term that the tree stands for is written as the bytes at its place. -/
  render_eq : (Term.ofTree tree).render.toByteArray
    = text.toByteArray.extract tree.start tree.stop

/-- The tree of a piece stands where the piece does. -/
theorem isTermIn_termTree {text : String} {pieces : List Piece}
    (h : Layout 0 text.toList pieces) {piece : Piece} (hpiece : piece ∈ pieces) :
    IsTermIn text (termTree piece.start piece.text) := by
  obtain ⟨before, after, htext, hstart, hne, hend⟩ := h.exists_append hpiece
  rw [Nat.zero_add] at hstart
  have hpos := Peg.utf8Length_pos hne
  have hstands : (termTree piece.start piece.text).StandsIn text :=
    Peg.Tree.standsIn_of_append htext hstart
  have hstop : (termTree piece.start piece.text).stop = utf8Length (before ++ piece.text) := by
    rw [Peg.utf8Length_append, ← hstart]
    rfl
  have htiles := tiles_partTrees piece.start hne
  rw [← List.append_assoc] at htext
  refine ⟨rfl, ?_, hstands, ?_, rules_partTrees _ _, htiles, ?_, ?_⟩
  · show piece.start < piece.start + utf8Length piece.text
    omega
  · rw [hstop]
    cases after with
    | nil =>
      rw [← Peg.utf8Length_toList, htext, List.append_nil]
      exact .inl rfl
    | cons c after => exact .inr (separatorAt_of_append htext hend.2)
  · intro part hpart
    obtain ⟨front, back, hsplit, hplace⟩ := htiles.exists_append hpart
    rw [flatMap_text_partTrees] at hsplit
    have hpartText : text.toList = before ++ front ++ (part.text ++ (back ++ after)) := by
      rw [htext, hsplit]
      simp only [List.append_assoc]
    refine ⟨inner_of_mem_partTrees hpart, Peg.Tree.standsIn_of_append hpartText ?_⟩
    rw [hplace, hstart, Peg.utf8Length_append]
  · rw [Term.ofTree_termTree, Term.render_ofPiece]
    exact hstands.extract_eq.symm

/-- Between two terms there is a separator, right behind the first one. -/
theorem IsTermIn.separatorAt {text : String} {first second : Peg.Tree Rule}
    (hfirst : IsTermIn text first) (hsecond : IsTermIn text second)
    (h : first.stop < second.start) : SeparatorAt text first.stop := by
  have hstart : second.start ≤ text.utf8ByteSize := hsecond.standsIn.start_isValid.le_rawEndPos
  rcases hfirst.ends with hstop | hstop
  · omega
  · exact hstop

/-- **A parse tree loses nothing.** Every text is a filter string, and under its tree there are the
trees of its terms, in order, and then the end of the text.

* Each tree of a term stands in the text at its place, between character boundaries, and has bytes.
  Its parts are a keyword and a relation, perhaps with a value, or a relation, perhaps with a value, or
  a value alone, and they fill the term without a gap.
* The trees of the terms stand apart and in order, with a separator right behind each one that others
  follow. Every byte that lies outside all of them is a separator.
* The terms of the text are those that the trees stand for, and each of them is written as the bytes
  at the place of its tree.
* Where the text starts with a term, the rule of terms takes the first of the trees and no more. -/
theorem parseTree_loses_nothing (text : String) :
    ∃ terms : List (Peg.Tree Rule),
      filter.run 0 text.toList
        = some ⟨[.node .filter 0 text.toList
            (terms ++ [.node .endOfInput text.utf8ByteSize [] []])], text.toList, []⟩ ∧
      parseTerms? text = some (terms.map Term.ofTree) ∧
      (∀ tree ∈ terms, IsTermIn text tree) ∧
      (terms.Pairwise fun first second =>
        first.stop < second.start ∧ SeparatorAt text first.stop) ∧
      (∀ place < text.utf8ByteSize,
        (∀ tree ∈ terms, ¬(tree.start ≤ place ∧ place < tree.stop)) → SeparatorAt text place) ∧
      ∀ c, text.toList.head? = some c → isSeparator c = false →
        ∃ first others rest, terms = first :: others ∧
          term.run 0 text.toList = some ⟨[first], first.text, rest⟩ := by
  obtain ⟨pieces, hlayout, hrun⟩ := run_filter text.toList
  rw [filterTree, Peg.utf8Length_toList] at hrun
  have hterms : ∀ tree ∈ pieceTrees pieces, IsTermIn text tree := by
    intro tree htree
    obtain ⟨piece, hpiece, rfl⟩ := List.mem_map.1 htree
    exact isTermIn_termTree hlayout hpiece
  refine ⟨pieceTrees pieces, hrun, ?_, hterms, ?_, ?_, ?_⟩
  · rw [parseTerms?_eq_terms, Scanner.terms, hlayout.pieces_eq, pieceTrees, List.map_map,
      List.map_map, Option.some.injEq]
    apply List.map_congr_left
    intro piece _
    exact (Term.ofTree_termTree piece.start piece.text).symm
  · have hapart : (pieceTrees pieces).Pairwise fun first second => first.stop < second.start := by
      rw [pieceTrees, List.pairwise_map]
      exact hlayout.pairwise_stop_lt_start
    refine hapart.imp_of_mem ?_
    intro first second hfirst hsecond hlt
    exact ⟨hlt, (hterms first hfirst).separatorAt (hterms second hsecond) hlt⟩
  · intro place hplace houtside
    refine hlayout.separatorAt (List.nil_append _).symm rfl (Nat.zero_le place) hplace ?_
    intro piece hpiece
    exact houtside _ (List.mem_map_of_mem hpiece)
  · intro c hhead hc
    obtain ⟨others, hpieces⟩ := hlayout.eq_cons_of_head hhead hc
    have hne : Quotes.takeSolid false text.toList ≠ [] := by
      rw [ne_eq, Quotes.takeSolid_eq_nil_iff]
      intro hend
      cases htext : text.toList with
      | nil =>
        rw [htext] at hhead
        contradiction
      | cons d rest =>
        rw [htext] at hhead hend
        obtain rfl : d = c := by simpa using hhead
        rw [hend.2] at hc
        contradiction
    have hterm := run_term 0 text.toList
    rw [if_neg hne] at hterm
    rw [hpieces]
    exact ⟨_, _, _, rfl, hterm⟩

/-- A keyword with a letter of two bytes for its value, and behind two spaces a quoted value. -/
theorem parseTree_loses_nothing_two :
    let text := "k:é  \"a b\""
    text.toList.head? = some 'k' ∧ isSeparator 'k' = false ∧
      ∃ first others rest, parseTerms? text = some (Term.ofTree first :: others) ∧
        IsTermIn text first ∧ term.run 0 text.toList = some ⟨[first], first.text, rest⟩ ∧
        first.stop = 4 := by
  intro text
  have hhead : text.toList.head? = some 'k' := by decide
  obtain ⟨terms, -, hparse, hterms, -, -, hfirst⟩ := parseTree_loses_nothing text
  obtain ⟨first, others, rest, rfl, hrun⟩ := hfirst 'k' hhead (by decide)
  have htake : Quotes.takeSolid false text.toList = ['k', ':', 'é'] := by decide
  have hterm := run_term 0 text.toList
  rw [htake, if_neg (List.cons_ne_nil _ _)] at hterm
  have hmatch := hrun.symm.trans hterm
  simp only [Option.some.injEq, Peg.Match.mk.injEq, List.cons.injEq, and_true] at hmatch
  refine ⟨hhead, by decide, first, others.map Term.ofTree, rest, hparse,
    hterms first List.mem_cons_self, hrun, ?_⟩
  rw [hmatch.1]
  rfl

end Grammar

end QueryFilter
