import QueryFilter.Peg.Pattern
import QueryFilter.Quoting
import QueryFilter.Term

set_option relaxedAutoImplicit false
set_option autoImplicit false

/-!
# The grammar of filter strings

A filter string is a list of terms with separators between them. Any quote opens a quoted segment
that runs to the next quote, or to the end of the text when there is none; separators inside it are
part of the value. A run of other characters is always a value, so that every text is a filter
string.

## Main definitions

* `QueryFilter.Grammar.Rule` — the rules whose matches appear in parse trees.
* `QueryFilter.Grammar.filter` — the grammar, rule by rule.
* `QueryFilter.parseTerms?` — the terms of a filter string.
-/

namespace QueryFilter

namespace Grammar

open Peg (Pattern)

/-- The rules of the grammar that leave a tree. -/
inductive Rule where
  | filter
  | term
  | keyword
  | relation
  | value
  | quoted
  | endOfInput
  deriving DecidableEq, Repr

/-- One given character. -/
def literal (c : Char) : Pattern Rule :=
  .char (· == c)

/-- One letter or digit of ASCII. -/
def alphanumeric : Pattern Rule :=
  .char fun c => ('0' ≤ c && c ≤ '9') || ('A' ≤ c && c ≤ 'Z') || ('a' ≤ c && c ≤ 'z')

/-- One separator; separators leave no tree. -/
def separator : Pattern Rule :=
  .alt (literal ' ') (.alt (literal '\t') (.alt (literal '\r') (literal '\n')))

/-- A quote. -/
def quote : Pattern Rule :=
  literal '"'

/-- A character other than a quote. -/
def unquoted : Pattern Rule :=
  .seq (.refuse quote) .any

/-- One character of a keyword. -/
def keywordChar : Pattern Rule :=
  .alt alphanumeric (.alt (literal '_') (literal '-'))

/-- A keyword is a run of letters, digits, underscores and dashes. -/
def keyword : Pattern Rule :=
  .leaf .keyword (.plus keywordChar)

/-- One of the characters that say how a value is compared, in the order in which they are tried. -/
def marker : Pattern Rule :=
  .alt (literal '~') (.alt (literal '=') (.alt (literal '>') (.alt (literal '<') (literal ':'))))

/-- A relation is one such character. -/
def relation : Pattern Rule :=
  .leaf .relation marker

/-- A quoted segment ends with the next quote or, without one, with the text. -/
def quoted : Pattern Rule :=
  .leaf .quoted (.seq quote (.seq (.star unquoted) (.opt quote)))

/-- A value is a run of quoted segments and of characters that do not separate. -/
def value : Pattern Rule :=
  .leaf .value (.plus (.alt quoted (.seq (.refuse separator) unquoted)))

/-- A term is a keyword with a relation and perhaps a value, otherwise a relation with perhaps a
value, otherwise a value. -/
def term : Pattern Rule :=
  .node .term
    (.alt (.seq keyword (.seq relation (.opt value))) (.alt (.seq relation (.opt value)) value))

/-- A filter is a list of terms with separators between them and perhaps at both ends. -/
def filter : Pattern Rule :=
  .node .filter
    (.seq (.star separator)
      (.seq (.opt (.seq term (.star (.seq (.plus separator) term))))
        (.seq (.star separator) (.leaf .endOfInput .finish))))

/-- The text of the first inner tree of a rule. -/
def partText? (tree : Peg.Tree Rule) (rule : Rule) : Option (List Char) :=
  (tree.inner.find? fun part => part.rule == rule).map Peg.Tree.text

end Grammar

/-- The term that a parse tree of the term rule stands for. -/
def Term.ofTree (tree : Peg.Tree Grammar.Rule) : Term :=
  .ofParts ((Grammar.partText? tree .keyword).map String.ofList)
    ((Grammar.partText? tree .relation).bind fun text => text.head?.bind Relation.ofChar?)
    (String.ofList ((Grammar.partText? tree .value).getD []))

/-- The terms of a filter tree: those of its inner trees that belong to the term rule. -/
def Term.listOfTree (tree : Peg.Tree Grammar.Rule) : List Term :=
  (tree.inner.filter fun part => part.rule == .term).map Term.ofTree

/-- The terms of a filter string, in order; none when the grammar does not accept the text. -/
def parseTerms? (text : String) : Option (List Term) :=
  (Grammar.filter.run 0 text.toList).map fun m => m.trees.flatMap Term.listOfTree

end QueryFilter
