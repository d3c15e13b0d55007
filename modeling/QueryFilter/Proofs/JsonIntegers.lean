import Mathlib.Data.List.Induction
import QueryFilter.Proofs.JsonLexemes
import QueryFilter.Proofs.JsonValues

set_option relaxedAutoImplicit false
set_option autoImplicit false

/-!
# The texts of integers and strings

An integer has one text in JSON. A fraction, an exponent, a zero in front, a plus sign or the sign of
minus zero would make the number something else or no number at all, so that what is read as an
integer is the text that is written for it. Where an integer of 64 bits is asked for, or a string,
this says which texts are accepted.

## Main definitions

* `QueryFilter.Json.Token.Pads` — a text is a word with blanks around it.

## Main results

* `QueryFilter.Text.Decimal.toDigits_ofDigitChars` — digits without zeros in front are those of their
  number.
* `QueryFilter.Json.Number.eq_ofInt_of_ofLiteral?` — the literals of integers.
* `QueryFilter.Json.exists_int64?_iff`, `QueryFilter.Json.exists_string?_iff` — the texts that are
  read as an integer of 64 bits, and as a string.
-/

namespace QueryFilter

/-! ## Digits -/

namespace Text.Decimal

/-- A digit is the one that is written for its value. -/
theorem digitChar_of_isDigit {c : Char} (h : c.isDigit = true) :
    c.toNat - '0'.toNat < 10 ∧ Nat.digitChar (c.toNat - '0'.toNat) = c := by
  have hzero : '0'.toNat = 48 := rfl
  have hnine : '9'.toNat = 57 := rfl
  obtain ⟨hlow, hhigh⟩ := Char.isDigit_iff_toNat.1 h
  have hlt : c.toNat - '0'.toNat < 10 := by omega
  refine ⟨hlt, Char.toNat_inj.1 ?_⟩
  rw [Nat.toNat_digitChar_of_lt_ten hlt]
  omega

/-- Digits that do not start with a zero, or a zero alone, are those of the number that they denote.

**Proof sketch.** Induction on the digits from the last one. The digits before it denote a tenth of
the number, which is not zero unless there are none. -/
theorem toDigits_ofDigitChars {digits : List Char} (hdigits : ∀ c ∈ digits, c.isDigit = true)
    (hne : digits ≠ []) (hzero : ¬(digits.head? = some '0' ∧ digits ≠ ['0'])) :
    Nat.toDigits 10 (Nat.ofDigitChars 10 digits 0) = digits := by
  induction digits using List.reverseRecOn with
  | nil => exact absurd rfl hne
  | append_singleton before c ih =>
    obtain ⟨hlt, hchar⟩ := digitChar_of_isDigit (hdigits c (by simp))
    rw [Nat.ofDigitChars_append, Nat.ofDigitChars_cons, Nat.ofDigitChars_nil]
    by_cases hbefore : before = []
    · subst hbefore
      rw [Nat.ofDigitChars_nil, Nat.mul_zero, Nat.zero_add, Nat.toDigits_of_lt_base hlt, hchar]
      rfl
    · have hhead : before.head? ≠ some '0' := by
        intro hhead
        apply hzero
        rw [List.head?_append_of_ne_nil _ hbefore]
        refine ⟨hhead, fun heq => hbefore ?_⟩
        have happend : before ++ [c] = [] ++ ['0'] := heq
        exact (List.append_inj' happend rfl).1
      have hfront := ih (fun d hd => hdigits d (List.mem_append_left _ hd)) hbefore
        fun h => hhead h.1
      have hpos : Nat.ofDigitChars 10 before 0 ≠ 0 := by
        intro hvalue
        rw [hvalue, Nat.toDigits_zero] at hfront
        exact hhead (hfront ▸ rfl)
      rw [Nat.toDigits_of_base_le (by decide) (by omega)]
      have hdiv : (10 * Nat.ofDigitChars 10 before 0 + (c.toNat - '0'.toNat)) / 10
          = Nat.ofDigitChars 10 before 0 := by omega
      have hmod : (10 * Nat.ofDigitChars 10 before 0 + (c.toNat - '0'.toNat)) % 10
          = c.toNat - '0'.toNat := by omega
      rw [hdiv, hmod, hfront, hchar]

/-- An integer that fits into 64 bits is the one that is taken for it. -/
theorem ofInt64?_eq_some_iff {n : Int} {value : Int64} :
    ofInt64? n = some value ↔ n = value.toInt := by
  rw [ofInt64?]
  constructor
  · intro h
    split at h
    · next hrange =>
      cases h
      have hmax : Int64.maxValue.toInt = 9223372036854775807 := by decide
      exact (Int64.toInt_ofInt_of_le hrange.1 (by omega)).symm
    · contradiction
  · rintro rfl
    rw [if_pos ⟨Int64.minValue_le_toInt value, Int64.toInt_le value⟩, Int64.ofInt_toInt]

end Text.Decimal

namespace Json

/-! ## Literals -/

namespace Literal

/-- Nothing but the end of a word has no exponent. -/
theorem eq_nil_of_exponent? {text : List Char} (h : exponent? text = some none) : text = [] := by
  cases text with
  | nil => rfl
  | cons e rest =>
    simp only [exponent?] at h
    split at h
    all_goals simp at h

/-- Nothing but the end of a word has neither a fraction nor an exponent. -/
theorem eq_nil_of_fraction? {text : List Char} (h : fraction? text = some (none, none)) :
    text = [] := by
  unfold fraction? at h
  split at h
  · next rest =>
    dsimp only at h
    split at h
    all_goals simp at h
  · obtain ⟨exponent, hexponent, heq⟩ := Option.map_eq_some_iff.1 h
    cases heq
    exact eq_nil_of_exponent? hexponent

/-- A word that is an unsigned number without fraction and exponent has digits alone, and no zero in
front of others. -/
theorem whole_of_magnitude? {negative : Bool} {word : List Char} {literal : Literal}
    (h : magnitude? negative word = some literal) (hfraction : literal.fraction = none)
    (hexponent : literal.exponent = none) :
    literal.negative = negative ∧ literal.whole = word ∧ (∀ c ∈ word, c.isDigit = true) ∧
      word ≠ [] ∧ ¬(word.head? = some '0' ∧ word ≠ ['0']) := by
  rw [magnitude?] at h
  split at h
  · contradiction
  · next hdigits =>
    obtain ⟨⟨fraction, exponent⟩, hrest, rfl⟩ := Option.map_eq_some_iff.1 h
    obtain rfl : fraction = none := hfraction
    obtain rfl : exponent = none := hexponent
    have hnil := eq_nil_of_fraction? hrest
    have htake : word.takeWhile Char.isDigit = word := by
      have hsplit := List.takeWhile_append_dropWhile (p := Char.isDigit) (l := word)
      rwa [hnil, List.append_nil] at hsplit
    rw [htake, not_or] at hdigits
    exact ⟨rfl, htake, List.takeWhile_eq_self_iff.1 htake, hdigits.1, hdigits.2⟩

end Literal

namespace Number

/-- The integers of 64 bits are read. -/
theorem inRange_toInt (n : Int64) : InRange n.toInt := by
  have hmax := Int64.toInt_lt n
  have hbound : (significandBound : Int) = 18446744073709551616 := by decide
  exact ⟨Int64.minValue_le_toInt n, by omega⟩

/-- All digits are collected when nothing is left of them. -/
theorem ofDigitChars_of_collect {digits : List Char} {significand value : Nat}
    (h : collect significand digits = (value, [])) :
    value = Nat.ofDigitChars 10 digits significand := by
  induction digits generalizing significand with
  | nil =>
    cases h
    rfl
  | cons c digits ih =>
    rw [collect] at h
    split at h
    · rw [Nat.ofDigitChars_cons]
      exact ih h
    · cases h

/-- A literal that is read as an integer has digits alone. A minus sign is not in front of a zero. -/
theorem exists_value_of_ofLiteral? {literal : Literal} {n : Int}
    (h : ofLiteral? literal = some (.integer n)) :
    literal.fraction = none ∧ literal.exponent = none ∧
      ((literal.negative = false ∧ n = Nat.ofDigitChars 10 literal.whole 0) ∨
        (literal.negative = true ∧ 0 < Nat.ofDigitChars 10 literal.whole 0 ∧
          n = -(Nat.ofDigitChars 10 literal.whole 0 : Int))) := by
  have hdouble : double? literal ≠ some (.integer n) := by
    rw [double?]
    intro hdouble
    obtain ⟨magnitude, -, hmagnitude⟩ := Option.map_eq_some_iff.1 hdouble
    contradiction
  rw [ofLiteral?] at h
  split at h
  · next hnone =>
    split at h
    next value left hcollect =>
    refine ⟨hnone.1, hnone.2, ?_⟩
    split at h
    · exact absurd h hdouble
    · next hleft =>
      obtain rfl : left = [] := Decidable.not_not.1 hleft
      have hvalue := ofDigitChars_of_collect hcollect
      subst hvalue
      split at h
      · next hsign =>
        cases h
        exact .inl ⟨by simpa using hsign, rfl⟩
      · next hsign =>
        split at h
        · next hrange =>
          cases h
          exact .inr ⟨by simpa using hsign, hrange.1, rfl⟩
        · exact absurd h hdouble
  · exact absurd h hdouble

/-- **A word that is read as an integer is the text that is written for it.** -/
theorem eq_ofInt_of_ofLiteral? {word : List Char} {literal : Literal} {n : Int}
    (hword : Literal.ofWord? word = some literal) (h : ofLiteral? literal = some (.integer n)) :
    word = Text.Decimal.ofInt n := by
  obtain ⟨hfraction, hexponent, hvalue⟩ := exists_value_of_ofLiteral? h
  unfold Literal.ofWord? at hword
  split at hword
  · next digits =>
    obtain ⟨hnegative, rfl, hdigits, hne, hzero⟩ :=
      Literal.whole_of_magnitude? hword hfraction hexponent
    rcases hvalue with ⟨hsign, -⟩ | ⟨-, hpos, rfl⟩
    · rw [hsign] at hnegative
      contradiction
    · rw [Text.Decimal.ofInt, if_pos (by omega), Int.natAbs_neg, Int.natAbs_natCast,
        Text.Decimal.toDigits_ofDigitChars hdigits hne hzero]
  · obtain ⟨hnegative, rfl, hdigits, hne, hzero⟩ :=
      Literal.whole_of_magnitude? hword hfraction hexponent
    rcases hvalue with ⟨-, rfl⟩ | ⟨hsign, -⟩
    · rw [Text.Decimal.ofInt, if_neg (by omega), Int.natAbs_natCast,
        Text.Decimal.toDigits_ofDigitChars hdigits hne hzero]
    · rw [hsign] at hnegative
      contradiction

end Number

/-! ## Texts -/

namespace Token

/-- A text is a word with blanks around it. -/
def Pads (text : String) (word : List Char) : Prop :=
  ∃ before after, text.toList = before ++ (word ++ after) ∧ (∀ c ∈ before, isGap c = true) ∧
    ∀ c ∈ after, isGap c = true

/-- A character alone is neither a number nor a string. -/
theorem ofChar?_ne {c : Char} {token : Token} (h : ofChar? c = some token) :
    (∀ literal, token ≠ .number literal) ∧ ∀ quoted, token ≠ .string quoted := by
  unfold ofChar? at h
  split at h
  all_goals cases h
  all_goals exact ⟨nofun, nofun⟩

/-- A word that is a number is one as a literal, and no word is a string. -/
theorem ofWord?_eq_some {word : List Char} {token : Token} (h : ofWord? word = some token) :
    (∀ literal, token = .number literal → Literal.ofWord? word = some literal) ∧
      ∀ quoted, token ≠ .string quoted := by
  rw [ofWord?] at h
  split at h
  · cases h
    simp
  · split at h
    · cases h
      simp
    · split at h
      · cases h
        simp
      · obtain ⟨literal, hliteral, rfl⟩ := Option.map_eq_some_iff.1 h
        simpa using hliteral

/-- The texts of numbers are words. -/
theorem Lexeme.ofWord?_of_number {word : List Char} {literal : Literal}
    (h : Lexeme word (.number literal)) : Literal.ofWord? word = some literal := by
  cases h with
  | mark hc => exact absurd rfl ((ofChar?_ne hc).1 literal)
  | word _ htoken => exact (ofWord?_eq_some htoken).1 literal rfl

/-- The texts of strings are in quotes. -/
theorem Lexeme.exists_body {word : List Char} {quoted : Quoted} (h : Lexeme word (.string quoted)) :
    ∃ body, Spells body quoted ∧ word = '"' :: (body ++ ['"']) := by
  cases h with
  | mark hc => exact absurd rfl ((ofChar?_ne hc).2 quoted)
  | word _ htoken => exact absurd rfl ((ofWord?_eq_some htoken).2 quoted)
  | string hbody => exact ⟨_, hbody, rfl⟩

end Token

/-- A document of one token is written by its lexemes with blanks around them. -/
theorem Node.ofText?_eq_some_iff_of_singleton {text : String} {node : Node} {token : Token}
    (htoken : node.tokens = [token]) :
    ofText? text = some node ↔ ∃ word, Token.Lexeme word token ∧ Token.Pads text word := by
  rw [ofText?_eq_some_iff, htoken, Token.scan?_eq_singleton_iff]
  constructor
  · rintro ⟨before, word, after, htext, hbefore, hafter, hword⟩
    exact ⟨word, hword, before, after, htext, hbefore, hafter⟩
  · rintro ⟨word, hword, before, after, htext, hbefore, hafter⟩
    exact ⟨before, word, after, htext, hbefore, hafter, hword⟩

/-- An integer of 64 bits is read from a literal of that integer. -/
theorem int64?_eq_some_iff {depth : Nat} {node : Node} {n : Int64} :
    int64? depth node = some n ↔
      ∃ literal, node = .number literal ∧ Number.ofLiteral? literal = some (.integer n.toInt) := by
  cases node with
  | number literal =>
    rw [int64?]
    constructor
    · intro h
      split at h
      · next value hvalue =>
        rw [Text.Decimal.ofInt64?_eq_some_iff] at h
        exact ⟨literal, rfl, h ▸ hvalue⟩
      · contradiction
    · rintro ⟨_, ⟨rfl⟩, hvalue⟩
      rw [hvalue]
      exact Text.Decimal.ofInt64?_eq_some_iff.2 rfl
  | null | bool _ | string _ | array _ | object _ =>
    constructor
    · intro h
      contradiction
    · rintro ⟨literal, hnode, -⟩
      contradiction

/-- **The texts of an integer of 64 bits**: its decimal digits, with blanks around them. -/
theorem exists_int64?_iff (depth : Nat) {text : String} {n : Int64} :
    (∃ node, Node.ofText? text = some node ∧ int64? depth node = some n) ↔
      Token.Pads text (Text.Decimal.ofInt n.toInt) := by
  simp only [int64?_eq_some_iff]
  have htokens (literal : Literal) : (Node.number literal).tokens = [.number literal] := by
    rw [Node.tokens]
  constructor
  · rintro ⟨_, hnode, literal, rfl, hliteral⟩
    rw [Node.ofText?_eq_some_iff_of_singleton (htokens literal)] at hnode
    obtain ⟨word, hword, hpads⟩ := hnode
    have hofWord := hword.ofWord?_of_number
    rwa [← Number.eq_ofInt_of_ofLiteral? hofWord hliteral]
  · intro hpads
    have hliteral := Number.ofLiteral?_ofInt (Number.inRange_toInt n)
    refine ⟨.number (.ofInt n.toInt), ?_, _, rfl, hliteral⟩
    rw [Node.ofText?_eq_some_iff_of_singleton (htokens _)]
    refine ⟨_, Token.Lexeme.word ?_ (Token.Scans.ofWord?_ofInt n.toInt), hpads⟩
    exact fun _ => Token.Scans.endsWord_of_mem_ofInt

/-- **The texts of a string**: what spells it, in quotes, with blanks around them. -/
theorem exists_string?_iff (depth : Nat) {text value : String} :
    (∃ node, Node.ofText? text = some node ∧ string? depth node = some value) ↔
      ∃ body quoted, Spells body quoted ∧ quoted.text? = some value ∧
        Token.Pads text ('"' :: (body ++ ['"'])) := by
  have htokens (quoted : Quoted) : (Node.string quoted).tokens = [.string quoted] := by
    rw [Node.tokens]
  constructor
  · rintro ⟨node, hnode, hstring⟩
    cases node with
    | string quoted =>
      rw [Node.ofText?_eq_some_iff_of_singleton (htokens quoted)] at hnode
      obtain ⟨word, hword, hpads⟩ := hnode
      obtain ⟨body, hbody, rfl⟩ := hword.exists_body
      exact ⟨body, quoted, hbody, hstring, hpads⟩
    | null | bool _ | number _ | array _ | object _ => contradiction
  · rintro ⟨body, quoted, hbody, hvalue, hpads⟩
    refine ⟨.string quoted, ?_, hvalue⟩
    rw [Node.ofText?_eq_some_iff_of_singleton (htokens quoted)]
    exact ⟨_, .string hbody, hpads⟩

end Json

end QueryFilter
