set_option relaxedAutoImplicit false
set_option autoImplicit false

/-!
# Relations

The relation between the keyword of a term and its value. In a filter string each relation is a
single character; in structured data it goes by its name.

## Main definitions

* `QueryFilter.Relation` — the five relations.
* `QueryFilter.Relation.toChar`, `QueryFilter.Relation.ofChar?` — a relation and its character.
* `QueryFilter.Relation.name`, `QueryFilter.Relation.ofName?` — a relation and its name.

## Main results

* `QueryFilter.Relation.ofChar?_eq_some_iff`, `QueryFilter.Relation.ofString?_eq_some_iff`,
  `QueryFilter.Relation.ofName?_eq_some_iff` — the characters, the texts and the names tell the
  relations apart, and no others are accepted.
-/

namespace QueryFilter

/-- The relation between a keyword and a value. -/
inductive Relation where
  | approx
  | equal
  | greater
  | less
  | tag
  deriving DecidableEq, Repr

namespace Relation

/-- All relations, in their order. -/
def all : List Relation := [approx, equal, greater, less, tag]

/-- The place of a relation in the order. -/
def rank : Relation → Nat
  | approx => 0
  | equal => 1
  | greater => 2
  | less => 3
  | tag => 4

/-- Relations are compared by their place in `all`. -/
instance : Ord Relation := ⟨compareOn rank⟩

/-- The character of a relation in a filter string. -/
def toChar : Relation → Char
  | approx => '~'
  | equal => '='
  | greater => '>'
  | less => '<'
  | tag => ':'

/-- The relation that a character stands for. -/
def ofChar? (c : Char) : Option Relation :=
  all.find? fun relation => relation.toChar == c

/-- The text of a relation in a filter string. -/
def render (relation : Relation) : String :=
  String.singleton relation.toChar

/-- The relation that a text of one character stands for; any other text stands for none. -/
def ofString? (text : String) : Option Relation :=
  match text.toList with
  | [c] => ofChar? c
  | _ => none

/-- The name of a relation in structured data. -/
def name : Relation → String
  | approx => "Approx"
  | equal => "Equal"
  | greater => "Greater"
  | less => "Less"
  | tag => "Tag"

/-- The relation that goes by a name. -/
def ofName? (text : String) : Option Relation :=
  all.find? fun relation => relation.name == text

/-! ## Small laws -/

@[simp] theorem mem_all (relation : Relation) : relation ∈ all := by
  cases relation <;> decide

@[simp] theorem ofChar?_toChar (relation : Relation) : ofChar? relation.toChar = some relation := by
  cases relation <;> rfl

/-- A character stands for a relation exactly when it is that relation's character. -/
theorem ofChar?_eq_some_iff {c : Char} {relation : Relation} :
    ofChar? c = some relation ↔ c = relation.toChar := by
  constructor
  · intro h
    have := List.find?_some h
    exact (eq_of_beq this).symm
  · rintro rfl
    exact ofChar?_toChar relation

/-- A text stands for a relation exactly when it is that relation's text. -/
theorem ofString?_eq_some_iff {text : String} {relation : Relation} :
    ofString? text = some relation ↔ text = relation.render := by
  rw [ofString?]
  constructor
  · intro h
    split at h
    · next c htext =>
      rw [render, ← ofChar?_eq_some_iff.1 h, ← String.toList_inj, htext, String.toList_singleton]
    · contradiction
  · rintro rfl
    simp [render]

@[simp] theorem ofName?_name (relation : Relation) : ofName? relation.name = some relation := by
  cases relation <;> decide

/-- A name belongs to a relation exactly when it is that relation's name. -/
theorem ofName?_eq_some_iff {text : String} {relation : Relation} :
    ofName? text = some relation ↔ text = relation.name := by
  constructor
  · intro h
    have := List.find?_some h
    exact (eq_of_beq this).symm
  · rintro rfl
    exact ofName?_name relation

end Relation

end QueryFilter
