import QueryFilter.Keyword
import QueryFilter.Relation

set_option relaxedAutoImplicit false
set_option autoImplicit false

/-!
# Terms

A term is one condition of a filter: an optional keyword, an optional relation and a value. A term
without a keyword is *bare*. Bare terms are search words and boolean connectives, and what they mean
depends on their place among the other terms.

## Main definitions

* `QueryFilter.Term` — terms.
* `QueryFilter.Term.ofParts` — a term from its parts, where an empty keyword counts as none.
* `QueryFilter.Term.render` — the text of a term in a filter string.
* `QueryFilter.Term.compare` — the order of terms by keyword, relation and value.

## Main results

* `QueryFilter.Term.hasKeyword_iff` — a term is found by its exact keyword, and a bare one never.
-/

namespace QueryFilter

/-- One condition of a filter. No term has an empty keyword. -/
@[ext]
structure Term where
  keyword : Option String
  relation : Option Relation
  value : String
  keyword_ne_empty : keyword ≠ some "" := by simp
  deriving DecidableEq, Repr

namespace Term

/-- A term from its parts; an empty keyword is the same as none. -/
def ofParts (keyword : Option String) (relation : Option Relation) (value : String) : Term :=
  ⟨keyword.filter (· != ""), relation, value, by
    intro h
    simpa using Option.mem_filter_iff.1 (Option.mem_def.2 h)⟩

/-- A term with a keyword, such as `rows=10`. -/
def keyed (keyword : String) (relation : Relation) (value : String) : Term :=
  ofParts (some keyword) (some relation) value

/-- A term without a keyword, such as `~abc` or `and`. -/
def bare (relation : Option Relation) (value : String) : Term :=
  ⟨none, relation, value, by simp⟩

/-- Whether a term has no keyword. -/
def isBare (term : Term) : Bool :=
  term.keyword.isNone

/-- Whether a term has exactly this keyword; a bare term has none. -/
def hasKeyword (term : Term) (keyword : String) : Bool :=
  term.keyword == some keyword

/-- The term with another relation and value. -/
def replace (term : Term) (relation : Relation) (value : String) : Term :=
  { term with relation := some relation, value := value }

/-- Whether the keyword of a term controls paging or sorting. -/
def isPaging (term : Term) : Bool :=
  term.keyword.any Keyword.isPaging

/-- The text of a term: its keyword, its relation and its value, as far as it has them. -/
def render (term : Term) : String :=
  term.keyword.getD "" ++ (term.relation.elim "" Relation.render ++ term.value)

/-- Terms are ordered by keyword, then by relation, then by value. A missing part comes first, and
texts are ordered by the code points of their characters. -/
def compare : Term → Term → Ordering :=
  compareLex (compareOn keyword) (compareLex (compareOn relation) (compareOn value))

/-! ## Small laws -/

@[simp] theorem keyword_ofParts (keyword : Option String) (relation : Option Relation)
    (value : String) : (ofParts keyword relation value).keyword = keyword.filter (· != "") := rfl

@[simp] theorem relation_ofParts (keyword : Option String) (relation : Option Relation)
    (value : String) : (ofParts keyword relation value).relation = relation := rfl

@[simp] theorem value_ofParts (keyword : Option String) (relation : Option Relation)
    (value : String) : (ofParts keyword relation value).value = value := rfl

/-- Taking a term apart and putting it together again gives the term. -/
@[simp] theorem ofParts_parts (term : Term) :
    ofParts term.keyword term.relation term.value = term := by
  obtain ⟨keyword, relation, value, h⟩ := term
  cases keyword with
  | none => rfl
  | some keyword =>
    have : keyword ≠ "" := fun e => h (e ▸ rfl)
    simp [ofParts, this]

/-- A term has a keyword when it is the one that stands in the term. -/
theorem hasKeyword_iff {term : Term} {keyword : String} :
    term.hasKeyword keyword = true ↔ term.keyword = some keyword := by
  simp [hasKeyword]

@[simp] theorem keyword_replace (term : Term) (relation : Relation) (value : String) :
    (term.replace relation value).keyword = term.keyword := rfl

@[simp] theorem hasKeyword_replace (term : Term) (relation : Relation) (value keyword : String) :
    (term.replace relation value).hasKeyword keyword = term.hasKeyword keyword := rfl

/-- A term made for a keyword has that keyword, unless it is empty. -/
theorem hasKeyword_keyed {keyword : String} (h : keyword ≠ "") (relation : Relation)
    (value : String) : (keyed keyword relation value).hasKeyword keyword = true := by
  simp [hasKeyword_iff, keyed, h]

/-- A term made for a valid keyword has that keyword. -/
theorem keyword_keyed {keyword : String} (h : Keyword.isValid keyword = true) (relation : Relation)
    (value : String) : (keyed keyword relation value).keyword = some keyword :=
  hasKeyword_iff.1 (hasKeyword_keyed (Keyword.ne_empty_of_isValid h) relation value)

/-- Replacing what a term with a keyword says is making a new term for the keyword. -/
theorem replace_eq_keyed {term : Term} {keyword : String} (h : term.hasKeyword keyword = true)
    (relation : Relation) (value : String) :
    term.replace relation value = keyed keyword relation value := by
  have hkeyword : term.keyword = some keyword := hasKeyword_iff.1 h
  have hne : keyword ≠ "" := by
    rintro rfl
    exact term.keyword_ne_empty hkeyword
  ext1
  · rw [keyword_replace, hkeyword, keyed, keyword_ofParts, Option.filter_some]
    simp [hne]
  · rfl
  · rfl

/-- A term that has some keyword is not bare. -/
theorem isBare_eq_false_of_hasKeyword {term : Term} {keyword : String}
    (h : term.hasKeyword keyword = true) : term.isBare = false := by
  simp [isBare, hasKeyword_iff.1 h]

end Term

end QueryFilter
