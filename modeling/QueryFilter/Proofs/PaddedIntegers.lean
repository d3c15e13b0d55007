import Mathlib.Data.List.TakeWhile
import QueryFilter.Proofs.JsonIntegers
import QueryFilter.Text.Blank

set_option relaxedAutoImplicit false
set_option autoImplicit false

/-!
# Integers with blanks around them

A variable of the environment denotes an integer by its digits. They may have one sign of either kind
in front of them and zeros behind it, and there may be blanks at both ends, of all that Unicode has.

## Main definitions

* `QueryFilter.Text.Decimal.Denotes` — digits with a sign, and the integer that they denote.
* `QueryFilter.Text.Decimal.DenotesTrimmed` — the same with blanks around it.

## Main results

* `QueryFilter.Text.Decimal.toInt?_eq_some_iff` — what is read from digits with a sign.
* `QueryFilter.Text.Decimal.toInt64?_trim_eq_some_iff` — what is read from a text that is trimmed.
-/

namespace QueryFilter.Text

/-! ## Blanks -/

/-- What is taken off by trimming is blank. -/
theorem exists_eq_append_trim (text : List Char) : ∃ before after,
    text = before ++ (trim text ++ after) ∧ (∀ c ∈ before, isBlank c = true) ∧
      ∀ c ∈ after, isBlank c = true := by
  have hstart := List.takeWhile_append_dropWhile (p := isBlank) (l := text)
  have hend := List.takeWhile_append_dropWhile (p := isBlank) (l := (trimStart text).reverse)
  refine ⟨text.takeWhile isBlank, ((trimStart text).reverse.takeWhile isBlank).reverse, ?_,
    fun c => List.mem_takeWhile_imp, ?_⟩
  · have hsplit := congrArg List.reverse hend
    rw [List.reverse_append, List.reverse_reverse] at hsplit
    rw [trim, trimEnd, hsplit, trimStart, hstart]
  · intro c hc
    exact List.mem_takeWhile_imp (List.mem_reverse.1 hc)

/-- A word without blanks is left by trimming. -/
theorem trim_append {before word after : List Char} (hbefore : ∀ c ∈ before, isBlank c = true)
    (hafter : ∀ c ∈ after, isBlank c = true) (hne : word ≠ [])
    (hword : ∀ c ∈ word, isBlank c = false) : trim (before ++ (word ++ after)) = word := by
  have hdrop {word : List Char} (hne : word ≠ []) (hword : ∀ c ∈ word, isBlank c = false)
      (rest : List Char) : (word ++ rest).dropWhile isBlank = word ++ rest := by
    cases word with
    | nil => contradiction
    | cons c word =>
      have hc := hword c List.mem_cons_self
      rw [List.cons_append, List.dropWhile_cons_of_neg (by simp [hc])]
  have hreverse : ∀ c ∈ word.reverse, isBlank c = false := fun c hc =>
    hword c (List.mem_reverse.1 hc)
  have hafter' : ∀ c ∈ after.reverse, isBlank c = true := fun c hc =>
    hafter c (List.mem_reverse.1 hc)
  have hend := hdrop (mt List.reverse_eq_nil_iff.1 hne) hreverse []
  rw [List.append_nil] at hend
  rw [trim, trimStart, List.dropWhile_append_of_pos hbefore, hdrop hne hword, trimEnd,
    List.reverse_append, List.dropWhile_append_of_pos hafter', hend, List.reverse_reverse]

/-- Digits are no blanks. -/
theorem isBlank_eq_false_of_isDigit {c : Char} (h : c.isDigit = true) : isBlank c = false := by
  have hzero : '0'.toNat = 48 := rfl
  have hnine : '9'.toNat = 57 := rfl
  obtain ⟨hlow, hhigh⟩ := Char.isDigit_iff_toNat.1 h
  have hapart : ∀ range ∈ blankRanges, range.2 < 48 ∨ 57 < range.1 := by decide
  rw [isBlank, List.any_eq_false]
  intro range hrange
  rw [Bool.and_eq_true, decide_eq_true_eq, decide_eq_true_eq]
  rcases hapart range hrange with hbelow | habove
  · omega
  · omega

/-! ## Integers -/

namespace Decimal

/-- Digits, with at most one sign in front of them, denote an integer. -/
inductive Denotes : List Char → Int → Prop
  | plain {digits : List Char} (hne : digits ≠ []) (hdigits : ∀ c ∈ digits, c.isDigit = true) :
    Denotes digits (Nat.ofDigitChars 10 digits 0)
  | plus {digits : List Char} (hne : digits ≠ []) (hdigits : ∀ c ∈ digits, c.isDigit = true) :
    Denotes ('+' :: digits) (Nat.ofDigitChars 10 digits 0)
  | minus {digits : List Char} (hne : digits ≠ []) (hdigits : ∀ c ∈ digits, c.isDigit = true) :
    Denotes ('-' :: digits) (-(Nat.ofDigitChars 10 digits 0 : Int))

/-- A text denotes an integer when the blanks at its ends are taken off. -/
def DenotesTrimmed (text : String) (n : Int) : Prop :=
  ∃ before word after, text.toList = before ++ (word ++ after) ∧
    (∀ c ∈ before, isBlank c = true) ∧ (∀ c ∈ after, isBlank c = true) ∧ Denotes word n

/-- A natural number is read from digits alone. -/
theorem toNat?_eq_some_iff {text : List Char} {n : Nat} : toNat? text = some n ↔
    text ≠ [] ∧ (∀ c ∈ text, c.isDigit = true) ∧ Nat.ofDigitChars 10 text 0 = n := by
  rw [toNat?]
  constructor
  · intro h
    split at h
    · next hdigits =>
      cases h
      exact ⟨hdigits.1, List.all_eq_true.1 hdigits.2, rfl⟩
    · contradiction
  · rintro ⟨hne, hdigits, rfl⟩
    rw [if_pos ⟨hne, List.all_eq_true.2 hdigits⟩]

/-- **What is read from a text is what it denotes.** -/
theorem toInt?_eq_some_iff {text : List Char} {n : Int} :
    toInt? text = some n ↔ Denotes text n := by
  constructor
  · intro h
    unfold toInt? at h
    split at h
    all_goals
      obtain ⟨magnitude, hmagnitude, rfl⟩ := Option.map_eq_some_iff.1 h
      obtain ⟨hne, hdigits, rfl⟩ := toNat?_eq_some_iff.1 hmagnitude
    · exact .plus hne hdigits
    · exact .minus hne hdigits
    · exact .plain hne hdigits
  · intro h
    cases h with
    | plain hne hdigits =>
      unfold toInt?
      split
      · exact absurd (hdigits '+' List.mem_cons_self) (by decide)
      · exact absurd (hdigits '-' List.mem_cons_self) (by decide)
      · rw [toNat?_eq_some_iff.2 ⟨hne, hdigits, rfl⟩]
        rfl
    | plus hne hdigits =>
      rw [toInt?, toNat?_eq_some_iff.2 ⟨hne, hdigits, rfl⟩]
      rfl
    | minus hne hdigits =>
      rw [toInt?, toNat?_eq_some_iff.2 ⟨hne, hdigits, rfl⟩]
      rfl

/-- There are no blanks inside of what denotes an integer, and there is a digit. -/
theorem Denotes.isBlank_eq_false {word : List Char} {n : Int} (h : Denotes word n) :
    word ≠ [] ∧ ∀ c ∈ word, isBlank c = false := by
  cases h with
  | plain hne hdigits =>
    exact ⟨hne, fun c hc => isBlank_eq_false_of_isDigit (hdigits c hc)⟩
  | plus hne hdigits =>
    refine ⟨nofun, List.forall_mem_cons.2 ⟨by decide, fun c hc => ?_⟩⟩
    exact isBlank_eq_false_of_isDigit (hdigits c hc)
  | minus hne hdigits =>
    refine ⟨nofun, List.forall_mem_cons.2 ⟨by decide, fun c hc => ?_⟩⟩
    exact isBlank_eq_false_of_isDigit (hdigits c hc)

/-- **The texts that are read as an integer of 64 bits after trimming.** -/
theorem toInt64?_trim_eq_some_iff {text : String} {n : Int64} :
    toInt64? (trim text.toList) = some n ↔ DenotesTrimmed text n.toInt := by
  have hread (word : List Char) : toInt64? word = some n ↔ Denotes word n.toInt := by
    rw [toInt64?, Option.bind_eq_some_iff]
    simp only [ofInt64?_eq_some_iff, toInt?_eq_some_iff]
    constructor
    · rintro ⟨_, hword, rfl⟩
      exact hword
    · intro hword
      exact ⟨_, hword, rfl⟩
  rw [hread]
  constructor
  · intro h
    obtain ⟨before, after, htext, hbefore, hafter⟩ := exists_eq_append_trim text.toList
    exact ⟨before, _, after, htext, hbefore, hafter, h⟩
  · rintro ⟨before, word, after, htext, hbefore, hafter, hword⟩
    obtain ⟨hne, hblank⟩ := hword.isBlank_eq_false
    rwa [htext, trim_append hbefore hafter hne hblank]

end Decimal

end QueryFilter.Text
