import QueryFilter.Grammar
import QueryFilter.Proofs.Quotes
import QueryFilter.Proofs.Repetition

set_option relaxedAutoImplicit false
set_option autoImplicit false

/-!
# What the rules of the grammar match

The grammar spells its characters out. As classes they are the same as those that the rest of the
library asks for. Then come the lexical rules, each with one lemma that says what it takes at the
start of any text and which tree it leaves. A value is the longest solid text, although the grammar
speaks of quoted segments only.

## Main definitions

* `QueryFilter.Grammar.valuePart` — a quoted segment or a single character of a value.

## Main results

* `QueryFilter.Grammar.run_separator`, `QueryFilter.Grammar.run_quote`,
  `QueryFilter.Grammar.run_keywordChar`, `QueryFilter.Grammar.run_marker` — the characters of the
  grammar as classes.
* `QueryFilter.Grammar.run_keyword`, `QueryFilter.Grammar.run_relation_toChar` — keywords and
  relations.
* `QueryFilter.Grammar.run_value` — values.
-/

namespace QueryFilter

namespace Grammar

open Peg (Pattern Match utf8Length)
open Quotes

/-! ## Characters and runs of them -/

/-- A given character, as a class of characters. -/
theorem run_literal (c : Char) : (literal c).run = (Pattern.char (· == c)).run := rfl

/-- **The separators of the grammar** are those for which values are put in quotes. -/
theorem run_separator : separator.run = (Pattern.char isSeparator).run := by
  have hrun := Pattern.run_alt_char (run_literal ' ') (Pattern.run_alt_char (run_literal '\t')
    (Pattern.run_alt_char (run_literal '\r') (run_literal '\n')))
  rw [separator, hrun]
  congr 2
  funext c
  simp only [isSeparator, separators, List.contains_cons, List.contains_nil, Bool.or_false]

/-- **The quote of the grammar** is the one that values are put in. -/
theorem run_quote : quote.run = (Pattern.char isQuote).run := rfl

/-- **The keyword characters of the grammar** are those of valid keywords. -/
theorem run_keywordChar : keywordChar.run = (Pattern.char Keyword.isChar).run := by
  have hrun := Pattern.run_alt_char (p := alphanumeric) rfl
    (Pattern.run_alt_char (run_literal '_') (run_literal '-'))
  rw [keywordChar, hrun]
  congr 2
  funext c
  have hdigit : ('0' ≤ c && c ≤ '9') = c.isDigit := rfl
  have hupper : ('A' ≤ c && c ≤ 'Z') = c.isUpper := (Bool.decide_and _ _).symm
  have hlower : ('a' ≤ c && c ≤ 'z') = c.isLower := rfl
  have halpha : (c.isUpper || c.isLower) = c.isAlpha := rfl
  have hclass : (c.isAlpha || c.isDigit) = c.isAlphanum := rfl
  rw [hdigit, hupper, hlower, Bool.or_assoc c.isDigit, halpha, Bool.or_comm c.isDigit, hclass,
    Keyword.isChar, Bool.or_assoc]

/-- **The markers of the grammar** are the characters of the relations. -/
theorem run_marker : marker.run = (Pattern.char fun c => (Relation.ofChar? c).isSome).run := by
  have hrun := Pattern.run_alt_char (run_literal '~') (Pattern.run_alt_char (run_literal '=')
    (Pattern.run_alt_char (run_literal '>')
      (Pattern.run_alt_char (run_literal '<') (run_literal ':'))))
  rw [marker, hrun]
  congr 2
  funext c
  rw [Bool.eq_iff_iff, Option.isSome_iff_exists]
  simp only [Relation.ofChar?_eq_some_iff, Bool.or_eq_true, beq_iff_eq]
  constructor
  · rintro (rfl | rfl | rfl | rfl | rfl)
    exacts [⟨.approx, rfl⟩, ⟨.equal, rfl⟩, ⟨.greater, rfl⟩, ⟨.less, rfl⟩, ⟨.tag, rfl⟩]
  · rintro ⟨relation, rfl⟩
    cases relation <;> simp [Relation.toChar]

/-- Separators are taken as far as they go. -/
theorem run_star_separator (pos : Nat) (text : List Char) :
    (Pattern.star separator).run pos text
      = some ⟨[], text.takeWhile isSeparator, text.dropWhile isSeparator⟩ := by
  rw [Pattern.run_star_of_run_eq run_separator, Pattern.run_star_char]

/-- A character that is no quote, as a class of characters. -/
theorem run_unquoted : unquoted.run = (Pattern.char fun c => !isQuote c).run := by
  funext pos text
  cases text with
  | nil => rfl
  | cons c rest =>
    cases hc : isQuote c with
    | true => simp [unquoted, run_quote, Pattern.any, hc]
    | false => simp [unquoted, run_quote, Pattern.any, Match.append, Match.empty, hc]

/-- The text of a quoted segment runs to the next quote. -/
theorem run_star_unquoted (pos : Nat) (text : List Char) :
    (Pattern.star unquoted).run pos text
      = some ⟨[], text.takeWhile (!isQuote ·), text.dropWhile (!isQuote ·)⟩ := by
  rw [← Pattern.run_star_char, Pattern.run_star, Pattern.run_star, run_unquoted]

/-- A keyword is the longest run of keyword characters, if it is not empty. -/
theorem run_keyword (pos : Nat) (text : List Char) :
    keyword.run pos text
      = if text.takeWhile Keyword.isChar = [] then none
        else some ⟨[.node .keyword pos (text.takeWhile Keyword.isChar) []],
          text.takeWhile Keyword.isChar, text.dropWhile Keyword.isChar⟩ := by
  rw [keyword, Pattern.run_leaf, Pattern.run_plus_of_run_eq run_keywordChar, Pattern.run_plus_char]
  split <;> rfl

/-- A relation is a single relation character. -/
theorem run_relation_toChar (pos : Nat) (r : Relation) (rest : List Char) :
    relation.run pos (r.toChar :: rest)
      = some ⟨[.node .relation pos [r.toChar] []], [r.toChar], rest⟩ := by
  simp [relation, run_marker]

/-- No relation stands where no relation character does. -/
theorem run_relation_of_none {pos : Nat} {text : List Char}
    (h : ∀ c ∈ text.head?, Relation.ofChar? c = none) : relation.run pos text = none := by
  cases text with
  | nil => rfl
  | cons c rest =>
    have hc : Relation.ofChar? c = none := h c rfl
    simp [relation, run_marker, hc]

/-! ## Values -/

/-- A part of a value: a quoted segment, or a character that does not separate. -/
def valuePart : Pattern Rule :=
  .alt quoted (.seq (.refuse separator) unquoted)

/-- What stands inside quotes is solid up to the next quote, and then goes on outside quotes. -/
theorem takeSolid_true (text : List Char) :
    takeSolid true text = text.takeWhile (!isQuote ·) ++
      match text.dropWhile (!isQuote ·) with
      | [] => []
      | c :: rest => c :: takeSolid false rest := by
  induction text with
  | nil => rfl
  | cons c text ih =>
    cases hc : isQuote c with
    | true => simp [hc]
    | false => simp [hc, ih]

/-- A quoted segment is a solid text of its own. -/
theorem run_quoted {c : Char} (hc : isQuote c = true) (pos : Nat) (rest : List Char) :
    ∃ m, quoted.run pos (c :: rest) = some m ∧ m.taken ≠ [] ∧
      takeSolid false (c :: rest) = m.taken ++ takeSolid false m.rest := by
  have hopen : quote.run pos (c :: rest) = some ⟨[], [c], rest⟩ := by
    simp [run_quote, hc]
  have hsolid : takeSolid false (c :: rest) = c :: takeSolid true rest := by
    simp [isSeparator_of_isQuote hc, hc]
  have hbody := run_star_unquoted (pos + utf8Length [c]) rest
  cases hdrop : rest.dropWhile (!isQuote ·) with
  | nil =>
    rw [hdrop] at hbody
    have hclose : ∀ p, (Pattern.opt quote).run p [] = some (.empty []) := fun _ => rfl
    refine ⟨_, by rw [quoted, Pattern.run_leaf, Pattern.run_seq_of_some hopen
      (Pattern.run_seq_of_some hbody (hclose _))]; rfl, by simp [Match.append], ?_⟩
    rw [hsolid, takeSolid_true, hdrop]
    simp [Match.append, Match.empty]
  | cons d tail =>
    have hd : isQuote d = true := by
      have hhead := List.head?_dropWhile_not (!isQuote ·) rest
      rw [hdrop] at hhead
      simpa using hhead
    rw [hdrop] at hbody
    have hclose : ∀ p, (Pattern.opt quote).run p (d :: tail) = some ⟨[], [d], tail⟩ := by
      intro p
      simp [run_quote, hd]
    refine ⟨_, by rw [quoted, Pattern.run_leaf, Pattern.run_seq_of_some hopen
      (Pattern.run_seq_of_some hbody (hclose _))]; rfl, by simp [Match.append], ?_⟩
    rw [hsolid, takeSolid_true, hdrop]
    simp [Match.append]

/-- A part of a value that is no quoted segment is a character that does not separate. -/
theorem run_valuePart_of_not_isQuote {c : Char} (hc : isQuote c = false) (pos : Nat)
    (rest : List Char) :
    valuePart.run pos (c :: rest) = if isSeparator c then none else some ⟨[], [c], rest⟩ := by
  have hquoted : quoted.run pos (c :: rest) = none := by
    simp [quoted, run_quote, hc]
  rw [valuePart, Pattern.run_alt_of_none hquoted]
  cases hs : isSeparator c with
  | true => simp [run_separator, hs]
  | false => simp [run_separator, run_unquoted, Match.append, Match.empty, hc, hs]

/-- A part of a value does not match where no solid text starts. -/
theorem takeSolid_of_run_valuePart_eq_none {pos : Nat} {text : List Char}
    (h : valuePart.run pos text = none) : takeSolid false text = [] := by
  cases text with
  | nil => rfl
  | cons c rest =>
    cases hc : isQuote c with
    | true =>
      obtain ⟨m, hm, -, -⟩ := run_quoted hc pos rest
      rw [valuePart, Pattern.run_alt_of_some hm] at h
      contradiction
    | false =>
      rw [run_valuePart_of_not_isQuote hc] at h
      have hs : isSeparator c = true := by simpa using h
      simp [hs]

/-- A part of a value is a part of the longest solid text, which goes on where the part ends. -/
theorem takeSolid_of_run_valuePart {pos : Nat} {text : List Char} {m : Match Rule}
    (h : valuePart.run pos text = some m) :
    m.taken ≠ [] ∧ takeSolid false text = m.taken ++ takeSolid false m.rest := by
  cases text with
  | nil => contradiction
  | cons c rest =>
    cases hc : isQuote c with
    | true =>
      obtain ⟨n, hn, hne, htake⟩ := run_quoted hc pos rest
      rw [valuePart, Pattern.run_alt_of_some hn, Option.some.injEq] at h
      subst h
      exact ⟨hne, htake⟩
    | false =>
      rw [run_valuePart_of_not_isQuote hc] at h
      split at h
      · contradiction
      · next hs =>
        rw [Option.some.injEq] at h
        subst h
        simp [hc, hs]

/-- Parts of a value, as many as there are, are the longest solid text. -/
theorem taken_iterate_valuePart (pos : Nat) (text : List Char) {bound : Nat}
    (h : text.length ≤ bound) :
    (Pattern.iterate valuePart.run bound pos text).taken = takeSolid false text := by
  refine Pattern.iterate_induction (motive := fun _ text m => m.taken = takeSolid false text)
    ?_ ?_ ?_ pos h
  · intro pos text m hm
    exact Pattern.length_rest_lt hm (takeSolid_of_run_valuePart hm).1
  · intro pos text hm
    exact (takeSolid_of_run_valuePart_eq_none hm).symm
  · intro pos text m n hm hn
    rw [(takeSolid_of_run_valuePart hm).2, ← hn]
    rfl

/-- What a match takes determines what it leaves. -/
theorem rest_eq_dropSolid {p : Pattern Rule} {pos : Nat} {text : List Char} {m : Match Rule}
    (h : p.run pos text = some m) (htaken : m.taken = takeSolid false text) :
    m.rest = dropSolid false text := by
  have hsplit := Pattern.taken_append_rest h
  rw [← takeSolid_append_dropSolid false text, htaken] at hsplit
  exact List.append_cancel_left hsplit

/-- **A value is the longest solid text**, if that is not empty. -/
theorem run_value (pos : Nat) (text : List Char) :
    value.run pos text
      = if takeSolid false text = [] then none
        else some ⟨[.node .value pos (takeSolid false text) []], takeSolid false text,
          dropSolid false text⟩ := by
  have hvalue : value.run pos text
      = ((Pattern.plus valuePart).run pos text).map fun m =>
          ⟨[.node .value pos m.taken []], m.taken, m.rest⟩ := rfl
  rw [hvalue]
  cases hm : valuePart.run pos text with
  | none =>
    rw [Pattern.run_plus_of_none hm, if_pos (takeSolid_of_run_valuePart_eq_none hm)]
    rfl
  | some m =>
    obtain ⟨hne, htake⟩ := takeSolid_of_run_valuePart hm
    have hrun := Pattern.run_plus_of_some hm rfl
    have hsolid : m.taken ++ (Pattern.iterate valuePart.run m.rest.length
        (pos + utf8Length m.taken) m.rest).taken = takeSolid false text := by
      rw [taken_iterate_valuePart _ _ (Nat.le_refl _), htake]
    have hrest := rest_eq_dropSolid hrun hsolid
    have hnonempty : takeSolid false text ≠ [] := by
      rw [htake]
      simp [hne]
    rw [hrun, if_neg hnonempty, Option.map_some, Option.some.injEq, hrest]
    simp only [Match.append, hsolid]

end Grammar

end QueryFilter
