import Mathlib.Algebra.Group.Nat.Even
import QueryFilter.Quoting

set_option relaxedAutoImplicit false
set_option autoImplicit false

/-!
# Quoted segments

Every quote in a filter string toggles a flag, and a separator counts only while the flag is down.
This file has the flag as a function of the text before a place, the texts in which no separator
counts, and the longest such text at the start of another one.

## Main definitions

* `QueryFilter.Quotes.isOpen` — the flag after a text.
* `QueryFilter.Quotes.isSolid` — no separator of a text stands outside quotes.
* `QueryFilter.Quotes.takeSolid`, `QueryFilter.Quotes.dropSolid` — the longest solid text that a
  text starts with, and what comes after it.

## Main results

* `QueryFilter.Quotes.isOpen_eq_false_iff` — the flag is down after an even number of quotes.
* `QueryFilter.Quotes.isSolid_takeSolid`, `QueryFilter.Quotes.ends_dropSolid` — the longest solid
  text is solid and ends where a separator counts.
* `QueryFilter.Quotes.isSolid_quoteValue_iff` — which values are solid when they are stored.
-/

namespace QueryFilter.Quotes

/-- The quote flag after a text: every quote toggles it. -/
def isOpen : Bool → List Char → Bool
  | quoted, [] => quoted
  | quoted, c :: text => isOpen (quoted ^^ isQuote c) text

/-- Whether every separator of a text stands inside quotes, when the text starts with the given
flag. -/
def isSolid : Bool → List Char → Bool
  | _, [] => true
  | quoted, c :: text => (quoted || !isSeparator c) && isSolid (quoted ^^ isQuote c) text

/-- The longest solid text at the start of a text. -/
def takeSolid : Bool → List Char → List Char
  | _, [] => []
  | quoted, c :: text =>
    if quoted || !isSeparator c then c :: takeSolid (quoted ^^ isQuote c) text else []

/-- What comes after the longest solid text at the start of a text. -/
def dropSolid : Bool → List Char → List Char
  | _, [] => []
  | quoted, c :: text =>
    if quoted || !isSeparator c then dropSolid (quoted ^^ isQuote c) text else c :: text

/-- A piece of a filter string ends at a place when the string ends there, or when a separator that
counts comes next. -/
def Ends (quoted : Bool) : List Char → Prop
  | [] => True
  | c :: _ => quoted = false ∧ isSeparator c = true

/-- A place where a piece ends is one where a closed piece ends. -/
theorem Ends.of_closed {quoted : Bool} {text : List Char} (h : Ends quoted text) :
    Ends false text := by
  cases text with
  | nil => trivial
  | cons c text => exact ⟨rfl, h.2⟩

/-! ## Characters -/

/-- A quote does not separate. -/
theorem isSeparator_of_isQuote {c : Char} (h : isQuote c = true) : isSeparator c = false := by
  have hc : c = '"' := by simpa [isQuote] using h
  subst hc
  decide

/-- A separator is not a quote. -/
theorem isQuote_of_isSeparator {c : Char} (h : isSeparator c = true) : isQuote c = false := by
  by_contra hc
  have hs := isSeparator_of_isQuote (by simpa using hc)
  simp [h] at hs

/-- The space separates. -/
@[simp] theorem isSeparator_space : isSeparator ' ' = true := by decide

/-- The space is not a quote. -/
@[simp] theorem isQuote_space : isQuote ' ' = false := by decide

/-- Where a walk through a text does not go on with a piece, the flag is down and a separator
stands. -/
theorem separates_of_not {quoted : Bool} {c : Char} (h : ¬(quoted || !isSeparator c) = true) :
    quoted = false ∧ isSeparator c = true := by
  simpa using h

/-- No character of a text is a quote when the quote is not one of its characters. -/
theorem any_isQuote_eq_false_iff (text : List Char) : text.any isQuote = false ↔ '"' ∉ text := by
  rw [List.any_eq_false]
  simp only [isQuote, beq_iff_eq]
  constructor
  · intro h hmem
    exact h '"' hmem rfl
  · rintro h c hc rfl
    exact h hc

/-! ## The flag -/

@[simp] theorem isOpen_nil (quoted : Bool) : isOpen quoted [] = quoted := rfl

@[simp] theorem isOpen_cons (quoted : Bool) (c : Char) (text : List Char) :
    isOpen quoted (c :: text) = isOpen (quoted ^^ isQuote c) text := rfl

/-- The flag after two texts is the flag after the second, started where the first one ended. -/
theorem isOpen_append (quoted : Bool) (a b : List Char) :
    isOpen quoted (a ++ b) = isOpen (isOpen quoted a) b := by
  induction a generalizing quoted with
  | nil => rfl
  | cons c a ih => exact ih _

/-- The flag after one more character. -/
theorem isOpen_concat (quoted : Bool) (text : List Char) (c : Char) :
    isOpen quoted (text ++ [c]) = (isOpen quoted text ^^ isQuote c) := by
  rw [isOpen_append, isOpen_cons, isOpen_nil]

/-- The flag says whether the number of quotes is odd. -/
theorem isOpen_eq_xor (quoted : Bool) (text : List Char) :
    isOpen quoted text = (quoted ^^ decide (text.count '"' % 2 = 1)) := by
  induction text generalizing quoted with
  | nil => simp
  | cons c text ih =>
    rw [isOpen_cons, ih, List.count_cons]
    by_cases hc : c = '"'
    · subst hc
      have hq : isQuote '"' = true := by decide
      rcases Nat.mod_two_eq_zero_or_one (text.count '"') with h | h
      · have h' : (text.count '"' + 1) % 2 = 1 := by omega
        simp [hq, h, h']
      · have h' : (text.count '"' + 1) % 2 = 0 := by omega
        simp [hq, h, h']
    · have hq : isQuote c = false := by simpa [isQuote] using hc
      simp [hq, hc]

/-- The flag is down after an even number of quotes. -/
theorem isOpen_eq_false_iff (text : List Char) :
    isOpen false text = false ↔ Even (text.count '"') := by
  rw [isOpen_eq_xor, Nat.even_iff]
  simp

/-- A text without quotes leaves the flag as it is. -/
theorem isOpen_of_not_any_isQuote {text : List Char} (h : text.any isQuote = false)
    (quoted : Bool) : isOpen quoted text = quoted := by
  induction text generalizing quoted with
  | nil => rfl
  | cons c text ih =>
    simp only [List.any_cons, Bool.or_eq_false_iff] at h
    rw [isOpen_cons, h.1, ih h.2, Bool.xor_false]

/-! ## Solid texts -/

@[simp] theorem isSolid_nil (quoted : Bool) : isSolid quoted [] = true := rfl

@[simp] theorem isSolid_cons (quoted : Bool) (c : Char) (text : List Char) :
    isSolid quoted (c :: text)
      = ((quoted || !isSeparator c) && isSolid (quoted ^^ isQuote c) text) := rfl

/-- Two texts together are solid when each of them is, the second one with the flag that the first
one leaves. -/
theorem isSolid_append (quoted : Bool) (a b : List Char) :
    isSolid quoted (a ++ b) = (isSolid quoted a && isSolid (isOpen quoted a) b) := by
  induction a generalizing quoted with
  | nil => rfl
  | cons c a ih =>
    rw [List.cons_append, isSolid_cons, isSolid_cons, isOpen_cons, ih, Bool.and_assoc]

/-- A text without separators is solid. -/
theorem isSolid_of_not_any_isSeparator {text : List Char} (h : text.any isSeparator = false)
    (quoted : Bool) : isSolid quoted text = true := by
  induction text generalizing quoted with
  | nil => rfl
  | cons c text ih =>
    simp only [List.any_cons, Bool.or_eq_false_iff] at h
    rw [isSolid_cons, h.1, ih h.2]
    simp

/-- Inside quotes a text without quotes is solid. -/
theorem isSolid_of_not_any_isQuote {text : List Char} (h : text.any isQuote = false) :
    isSolid true text = true := by
  induction text with
  | nil => rfl
  | cons c text ih =>
    simp only [List.any_cons, Bool.or_eq_false_iff] at h
    rw [isSolid_cons, h.1, Bool.xor_false, ih h.2]
    rfl

/-- A separator in a solid text comes with a quote. -/
theorem any_isQuote_of_isSolid {text : List Char} (h : isSolid false text = true)
    (hsep : text.any isSeparator = true) : text.any isQuote = true := by
  induction text with
  | nil => contradiction
  | cons c text ih =>
    rw [isSolid_cons, Bool.and_eq_true] at h
    rw [List.any_cons, Bool.or_eq_true] at hsep ⊢
    cases hc : isQuote c with
    | true => exact .inl rfl
    | false =>
      rw [hc, Bool.xor_false] at h
      refine .inr (ih h.2 (hsep.resolve_left ?_))
      simpa using h.1

/-! ## The longest solid text -/

@[simp] theorem takeSolid_nil (quoted : Bool) : takeSolid quoted [] = [] := rfl

@[simp] theorem takeSolid_cons (quoted : Bool) (c : Char) (text : List Char) :
    takeSolid quoted (c :: text)
      = if quoted || !isSeparator c then c :: takeSolid (quoted ^^ isQuote c) text else [] := rfl

@[simp] theorem dropSolid_nil (quoted : Bool) : dropSolid quoted [] = [] := rfl

@[simp] theorem dropSolid_cons (quoted : Bool) (c : Char) (text : List Char) :
    dropSolid quoted (c :: text)
      = if quoted || !isSeparator c then dropSolid (quoted ^^ isQuote c) text
        else c :: text := rfl

/-- The longest solid text and what comes after it make up the text. -/
theorem takeSolid_append_dropSolid (quoted : Bool) (text : List Char) :
    takeSolid quoted text ++ dropSolid quoted text = text := by
  induction text generalizing quoted with
  | nil => rfl
  | cons c text ih =>
    rw [takeSolid_cons, dropSolid_cons]
    split
    · rw [List.cons_append, ih]
    · rfl

/-- The longest solid text is solid. -/
theorem isSolid_takeSolid (quoted : Bool) (text : List Char) :
    isSolid quoted (takeSolid quoted text) = true := by
  induction text generalizing quoted with
  | nil => rfl
  | cons c text ih =>
    rw [takeSolid_cons]
    split
    · next h => rw [isSolid_cons, h, ih, Bool.and_self]
    · rfl

/-- The longest solid text ends where the text ends or where a separator counts. -/
theorem ends_dropSolid (quoted : Bool) (text : List Char) :
    Ends (isOpen quoted (takeSolid quoted text)) (dropSolid quoted text) := by
  induction text generalizing quoted with
  | nil => trivial
  | cons c text ih =>
    rw [takeSolid_cons, dropSolid_cons]
    split
    · exact ih _
    · next h => exact separates_of_not h

/-- Where a piece ends no solid text starts. -/
theorem takeSolid_eq_nil_iff (quoted : Bool) (text : List Char) :
    takeSolid quoted text = [] ↔ Ends quoted text := by
  cases text with
  | nil => simp [Ends]
  | cons c text => simp [Ends]

/-- A solid text in front is a part of the longest one. -/
theorem takeSolid_append {quoted : Bool} {a : List Char} (ha : isSolid quoted a = true)
    (b : List Char) : takeSolid quoted (a ++ b) = a ++ takeSolid (isOpen quoted a) b := by
  induction a generalizing quoted with
  | nil => rfl
  | cons c a ih =>
    rw [isSolid_cons, Bool.and_eq_true] at ha
    rw [List.cons_append, takeSolid_cons, if_pos ha.1, ih ha.2]
    rfl

/-- A solid text in front is skipped. -/
theorem dropSolid_append {quoted : Bool} {a : List Char} (ha : isSolid quoted a = true)
    (b : List Char) : dropSolid quoted (a ++ b) = dropSolid (isOpen quoted a) b := by
  have h := takeSolid_append_dropSolid quoted (a ++ b)
  rw [takeSolid_append ha, List.append_assoc] at h
  have hb := takeSolid_append_dropSolid (isOpen quoted a) b
  exact List.append_cancel_left ((List.append_cancel_left h).trans hb.symm)

/-! ## Stored values -/

/-- A stored text is empty only when the text is. -/
theorem quoteValue_eq_empty_iff (text : String) : quoteValue text = "" ↔ text = "" := by
  unfold quoteValue
  split
  · next h =>
    constructor
    · intro hempty
      have hlist := congrArg String.toList hempty
      simp at hlist
    · rintro rfl
      simp at h
  · rfl

/-- Quoting a value does not change the parity of its quotes. -/
theorem isOpen_quoteValue (value : String) :
    isOpen false (quoteValue value).toList = isOpen false value.toList := by
  unfold quoteValue
  split
  · next h =>
    simp only [Bool.and_eq_true, Bool.not_eq_true'] at h
    have hq : isQuote '"' = true := by decide
    rw [String.toList_ofList, List.cons_append, isOpen_cons, isOpen_append,
      isOpen_of_not_any_isQuote h.2, isOpen_of_not_any_isQuote h.2]
    simp [hq]
  · rfl

/-- A stored value is solid when it held no quote, or when all of its separators stood inside quotes
already. -/
theorem isSolid_quoteValue_iff (value : String) :
    isSolid false (quoteValue value).toList = true
      ↔ value.toList.any isQuote = false ∨ isSolid false value.toList = true := by
  cases hq : value.toList.any isQuote with
  | true => simp [quoteValue_of_any_isQuote hq]
  | false =>
    cases hs : value.toList.any isSeparator with
    | false =>
      simp [quoteValue_of_not_any_isSeparator hs, isSolid_of_not_any_isSeparator hs]
    | true =>
      have h : quoteValue value = String.ofList ('"' :: value.toList ++ ['"']) :=
        if_pos (by simp [hs, hq])
      have hc : isQuote '"' = true := by decide
      have hsep : isSeparator '"' = false := by decide
      rw [h, String.toList_ofList, List.cons_append, isSolid_cons, isSolid_append]
      simp [hc, hsep, isSolid_of_not_any_isQuote hq]

end QueryFilter.Quotes
