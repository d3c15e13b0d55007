import QueryFilter.Grammar
import QueryFilter.KeywordValue
import QueryFilter.Notice
import QueryFilter.Settings

set_option relaxedAutoImplicit false
set_option autoImplicit false

/-!
# Filters

A filter is a list of terms in a fixed order, with the identity of the saved filter that it comes
from, if it comes from one.

## Main definitions

* `QueryFilter.Filter` — filters.
* `QueryFilter.Filter.ofString` — the filter that a text writes.
* `QueryFilter.Filter.getTerm?`, `QueryFilter.Filter.getWith?` — the first term with a keyword, and
  its value.
* `QueryFilter.Filter.toFilterString`, `QueryFilter.Filter.toCriteriaString` — a filter as text,
  with and without its paging terms.
-/

namespace QueryFilter

/-- A list of terms, and the identity of a saved filter. -/
@[ext]
structure Filter where
  terms : List Term
  id : Option String
  kind : Option String
  name : Option String
  deriving DecidableEq

namespace Filter

/-! ## Construction -/

/-- A filter without an identity. -/
def ofTerms (terms : List Term) : Filter :=
  ⟨terms, none, none, none⟩

/-- The filter without terms. -/
def empty : Filter :=
  ofTerms []

/-- The terms that a text writes. A text that the grammar does not accept is kept as one bare term,
without the blanks at its ends, or as none if it is blank. -/
def termsOfText (text : String) : List Term :=
  match parseTerms? text with
  | some terms => terms
  | none =>
    let trimmed := String.ofList (Text.trim text.toList)
    if trimmed = "" then [] else [.bare none trimmed]

/-- The filter that a text writes. Every text writes one. -/
def ofString (text : String) : Filter :=
  ofTerms (termsOfText text)

/-- What is reported when a filter string is read. -/
def parseNotices (text : String) : List Notice :=
  [.parsed text (ofString text).terms.length]

/-- The filter with another identifier. -/
def withId (filter : Filter) (id : String) : Filter :=
  { filter with id := some id }

/-- The filter with another kind. -/
def withKind (filter : Filter) (kind : String) : Filter :=
  { filter with kind := some kind }

/-- The filter with another name. -/
def withName (filter : Filter) (name : String) : Filter :=
  { filter with name := some name }

/-! ## Looking up keywords -/

/-- The first term with exactly this keyword. -/
def getTerm? (filter : Filter) (keyword : String) : Option Term :=
  filter.terms.find? fun term => term.hasKeyword keyword

/-- Whether some term has exactly this keyword. -/
def has (filter : Filter) (keyword : String) : Bool :=
  (filter.getTerm? keyword).isSome

/-- The value that the text of a term stands for: a number if the keyword is numeric and the text is
an integer of 64 bits, otherwise the text. -/
def valueOf (settings : Settings) (keyword : String) (text : String) : KeywordValue :=
  if settings.isNumeric keyword then
    match Text.Decimal.toInt64? text.toList with
    | some number => .number number
    | none => .text text
  else
    .text text

/-- The value of the first term with a keyword. -/
def getWith? (filter : Filter) (settings : Settings) (keyword : String) : Option KeywordValue :=
  (filter.getTerm? keyword).map fun term => valueOf settings keyword term.value

/-- The value of the first term with a keyword, with the default settings. -/
def get? (filter : Filter) (keyword : String) : Option KeywordValue :=
  filter.getWith? .default keyword

/-- What is reported when the value of a keyword is looked up: a numeric keyword has another text.
-/
def lookupNotices (filter : Filter) (settings : Settings) (keyword : String) : List Notice :=
  match filter.getWith? settings keyword with
  | some (.text text) => if settings.isNumeric keyword then [.notNumeric keyword text] else []
  | _ => []

/-! ## Text -/

/-- The text of a list of terms: the texts that are not empty, with spaces between them. -/
def joinTerms (terms : List Term) : String :=
  " ".intercalate ((terms.map Term.render).filter (· != ""))

/-- The text of a filter. -/
def toFilterString (filter : Filter) : String :=
  joinTerms filter.terms

/-- The terms that select. -/
def criteria (filter : Filter) : List Term :=
  filter.terms.filter fun term => !term.isPaging

/-- The text of a filter without its terms of paging and sorting. -/
def toCriteriaString (filter : Filter) : String :=
  joinTerms filter.criteria

end Filter

end QueryFilter
