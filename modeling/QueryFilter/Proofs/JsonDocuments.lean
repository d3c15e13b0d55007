import Mathlib.Data.List.Basic
import Mathlib.Data.List.TakeWhile
import QueryFilter.Json.Value
import QueryFilter.Proofs.JsonTokens

set_option relaxedAutoImplicit false
set_option autoImplicit false

/-!
# Values as documents

What is written for a value is a document before it is a text: the strings are kept with those
characters apart that are written as code units, and the numbers as literals. Every string and every
integer is found again in its written form.

## Main definitions

* `QueryFilter.Json.Quoted.ofText` — a string as it is written.
* `QueryFilter.Json.Literal.ofInt` — an integer as it is written.
* `QueryFilter.Json.Value.induct` — induction over values.
* `QueryFilter.Json.Value.IsIntegral` — values with integers for numbers.
* `QueryFilter.Json.Value.toNode` — the document that is written for a value.

## Main results

* `QueryFilter.Json.Quoted.text?_ofText` — a string as written is read as the string.
* `QueryFilter.Json.Literal.ofWord?_ofInt` — the text of an integer is its literal.
-/

namespace QueryFilter.Json

/-! ## Strings -/

/-- The piece that a character is written as. Control characters without a short escape are written
as code units. -/
def Piece.ofChar (c : Char) : Piece :=
  if c.toNat < 0x20 ∧ c ∉ ['\x08', '\t', '\n', '\x0c', '\r'] then .unit c.toNat else .char c

namespace Quoted

/-- A string as it is written. -/
def ofText (text : String) : Quoted :=
  text.toList.map Piece.ofChar

/-- A code unit that is no surrogate stands for itself. -/
theorem decode?_unit_cons {code : Nat} (hhigh : isHighSurrogate code = false)
    (hlow : isLowSurrogate code = false) (rest : Quoted) :
    decode? (.unit code :: rest) = (decode? rest).map (Char.ofNat code :: ·) := by
  cases rest with
  | nil => simp [decode?, hhigh, hlow]
  | cons piece rest =>
    cases piece with
    | char c => simp [decode?, hhigh, hlow]
    | unit low => simp [decode?, hhigh, hlow]

/-- A character in front is read as itself. -/
theorem decode?_ofChar_cons (c : Char) (rest : Quoted) :
    decode? (Piece.ofChar c :: rest) = (decode? rest).map (c :: ·) := by
  rw [Piece.ofChar]
  split
  · next h =>
    have hhigh : isHighSurrogate c.toNat = false := by
      simp only [isHighSurrogate, Bool.and_eq_false_iff, decide_eq_false_iff_not]
      omega
    have hlow : isLowSurrogate c.toNat = false := by
      simp only [isLowSurrogate, Bool.and_eq_false_iff, decide_eq_false_iff_not]
      omega
    rw [decode?_unit_cons hhigh hlow, Char.ofNat_toNat]
  · rw [decode?]

/-- **A string as written is read as the string.** -/
theorem text?_ofText (text : String) : (ofText text).text? = some text := by
  have hdecode (chars : List Char) : decode? (chars.map Piece.ofChar) = some chars := by
    induction chars with
    | nil => rfl
    | cons c chars ih => rw [List.map_cons, decode?_ofChar_cons, ih, Option.map_some]
  rw [text?, ofText, hdecode, Option.map_some, String.ofList_toList]

end Quoted

/-! ## Integers -/

namespace Literal

/-- The literal that an integer is written as. -/
def ofInt (n : Int) : Literal :=
  ⟨decide (n < 0), Nat.toDigits 10 n.natAbs, none, none⟩

/-- The digits of a positive number do not start with a zero. -/
theorem head?_toDigits_ne {n : Nat} (hn : 0 < n) : (Nat.toDigits 10 n).head? ≠ some '0' := by
  induction n using Nat.strongRecOn with
  | ind n ih =>
    rcases Nat.lt_or_ge n 10 with hlt | hge
    · rw [Nat.toDigits_of_lt_base hlt, List.head?_cons, ne_eq, Option.some.injEq,
        Nat.digitChar_eq_zero]
      omega
    · rw [Nat.toDigits_of_base_le (by decide) hge,
        List.head?_append_of_ne_nil _ Nat.toDigits_ne_nil]
      exact ih (n / 10) (by omega) (by omega)

/-- The digits of a natural number are a literal. -/
theorem magnitude?_toDigits (negative : Bool) (n : Nat) :
    magnitude? negative (Nat.toDigits 10 n) = some ⟨negative, Nat.toDigits 10 n, none, none⟩ := by
  have hdigit : ∀ c ∈ Nat.toDigits 10 n, c.isDigit = true := by
    intro c hc
    exact Nat.isDigit_of_mem_toDigits (by decide) (by decide) hc
  have htake : (Nat.toDigits 10 n).takeWhile Char.isDigit = Nat.toDigits 10 n := by
    rw [List.takeWhile_eq_self_iff]
    exact hdigit
  have hdrop : (Nat.toDigits 10 n).dropWhile Char.isDigit = [] := by
    rw [List.dropWhile_eq_nil_iff]
    exact hdigit
  have hleading : ¬(Nat.toDigits 10 n = [] ∨
      (Nat.toDigits 10 n).head? = some '0' ∧ Nat.toDigits 10 n ≠ ['0']) := by
    rintro (hnil | ⟨hzero, hne⟩)
    · exact Nat.toDigits_ne_nil hnil
    · rcases Nat.eq_zero_or_pos n with rfl | hn
      · exact hne (Nat.toDigits_zero 10)
      · exact head?_toDigits_ne hn hzero
  rw [magnitude?, htake, if_neg hleading, hdrop]
  rfl

/-- **The text of an integer is a literal.** -/
theorem ofWord?_ofInt (n : Int) : ofWord? (Text.Decimal.ofInt n) = some (ofInt n) := by
  rw [Text.Decimal.ofInt, ofInt]
  split
  · next hn => rw [ofWord?, magnitude?_toDigits, decide_eq_true hn]
  · next hn =>
    have hdigits (word : List Char) : Nat.toDigits 10 n.natAbs ≠ '-' :: word := by
      intro h
      have hmem : '-' ∈ Nat.toDigits 10 n.natAbs := h ▸ List.mem_cons_self
      exact absurd (Nat.isDigit_of_mem_toDigits (by decide) (by decide) hmem) (by decide)
    rw [ofWord?, magnitude?_toDigits, decide_eq_false hn]
    exact hdigits

end Literal

/-- The literal that is found in the text of a number. -/
def Number.literal (number : Number) : Literal :=
  (Literal.ofWord? number.write).getD (.ofInt 0)

/-- The literal that is found in the text of an integer. -/
theorem Number.literal_integer (n : Int) : (Number.integer n).literal = .ofInt n := by
  rw [literal, write, Literal.ofWord?_ofInt, Option.getD_some]

/-! ## Values -/

namespace Value

/-- Induction over values: an array or object may use what holds of all of its parts. -/
@[elab_as_elim, induction_eliminator]
theorem induct {motive : Value → Prop} (null : motive .null)
    (bool : ∀ value, motive (.bool value)) (number : ∀ value, motive (.number value))
    (string : ∀ value, motive (.string value))
    (array : ∀ items, (∀ item ∈ items, motive item) → motive (.array items))
    (object : ∀ members, (∀ member ∈ members, motive member.2) → motive (.object members)) :
    (value : Value) → motive value
  | .null => null
  | .bool value => bool value
  | .number value => number value
  | .string value => string value
  | .array items =>
    array items fun item _ => induct null bool number string array object item
  | .object members =>
    object members fun member _ => induct null bool number string array object member.2
decreasing_by
  · decreasing_tactic
  · next hmember =>
    have hlt := List.sizeOf_lt_of_mem hmember
    have hpair : sizeOf member = 1 + sizeOf member.1 + sizeOf member.2 := rfl
    simp only [Value.object.sizeOf_spec]
    omega

/-- A value whose numbers are all integers. -/
inductive IsIntegral : Value → Prop
  | null : IsIntegral .null
  | bool (value : Bool) : IsIntegral (.bool value)
  | integer (n : Int) : IsIntegral (.number (.integer n))
  | string (value : String) : IsIntegral (.string value)
  | array {items : List Value} (h : ∀ item ∈ items, IsIntegral item) : IsIntegral (.array items)
  | object {members : List (String × Value)} (h : ∀ member ∈ members, IsIntegral member.2) :
    IsIntegral (.object members)

mutual

/-- The document that is written for a value. -/
def toNode : Value → Node
  | null => .null
  | bool value => .bool value
  | number value => .number value.literal
  | string value => .string (Quoted.ofText value)
  | array items => .array (toNodes items)
  | object members => .object (toMembers members)

/-- The documents that are written for the items of an array. -/
def toNodes : List Value → List Node
  | [] => []
  | item :: items => toNode item :: toNodes items

/-- The members that are written for those of an object. -/
def toMembers : List (String × Value) → List (Quoted × Node)
  | [] => []
  | (name, value) :: members => (Quoted.ofText name, toNode value) :: toMembers members

end

/-- Every item is written by itself. -/
theorem toNodes_eq_map (items : List Value) : toNodes items = items.map toNode := by
  induction items with
  | nil => rfl
  | cons item items ih => rw [toNodes, ih, List.map_cons]

/-- Every member is written by itself. -/
theorem toMembers_eq_map (members : List (String × Value)) :
    toMembers members = members.map fun member => (Quoted.ofText member.1, member.2.toNode) := by
  induction members with
  | nil => rfl
  | cons member members ih => rw [toMembers, ih, List.map_cons]

end Value

end QueryFilter.Json
