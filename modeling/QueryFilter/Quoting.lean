set_option relaxedAutoImplicit false
set_option autoImplicit false

/-!
# Separators and quoting

Terms of a filter are separated by four blank characters. Inside double quotes a separator is a
character like any other, so a value that holds one is written in quotes. Quotes cannot be escaped:
a value that already holds a quote is written as it is.

## Main definitions

* `QueryFilter.isSeparator` — the characters that stand between terms.
* `QueryFilter.quoteValue` — a value in the form in which a term stores it.

## Main results

* `QueryFilter.quoteValue_eq_self_iff` — the values that are left alone.
* `QueryFilter.quoteValue_quoteValue` — quoting a second time changes nothing.
-/

namespace QueryFilter

/-- The characters that stand between terms. -/
def separators : List Char := [' ', '\t', '\r', '\n']

/-- Whether a character separates terms; a no-break space, for one, does not. -/
def isSeparator (c : Char) : Bool :=
  separators.contains c

/-- The character that opens and closes a quoted segment. -/
def isQuote (c : Char) : Bool :=
  c == '"'

/-- A value that holds a separator and no quote is put in quotes; any other is left alone. -/
def quoteValue (value : String) : String :=
  if value.toList.any isSeparator && !value.toList.any isQuote then
    String.ofList ('"' :: value.toList ++ ['"'])
  else
    value

/-- A value with a quote in it is left alone. -/
theorem quoteValue_of_any_isQuote {value : String} (h : value.toList.any isQuote = true) :
    quoteValue value = value := by
  simp [quoteValue, h]

/-- A value without a separator is left alone. -/
theorem quoteValue_of_not_any_isSeparator {value : String}
    (h : value.toList.any isSeparator = false) : quoteValue value = value := by
  simp [quoteValue, h]

/-- The values that are left alone are those in which a separator comes with a quote. -/
theorem quoteValue_eq_self_iff (value : String) :
    quoteValue value = value ↔
      (value.toList.any isSeparator = true → value.toList.any isQuote = true) := by
  constructor
  · intro h hsep
    cases hquote : value.toList.any isQuote with
    | true => rfl
    | false =>
      rw [quoteValue, if_pos (by simp [hsep, hquote])] at h
      rw [← h] at hquote
      simp [isQuote] at hquote
  · intro h
    cases hsep : value.toList.any isSeparator with
    | true => exact quoteValue_of_any_isQuote (h hsep)
    | false => exact quoteValue_of_not_any_isSeparator hsep

/-- Quoting a second time changes nothing. -/
theorem quoteValue_quoteValue (value : String) :
    quoteValue (quoteValue value) = quoteValue value := by
  by_cases h : (value.toList.any isSeparator && !value.toList.any isQuote) = true
  · apply quoteValue_of_any_isQuote
    rw [quoteValue, if_pos h]
    simp [isQuote]
  · have kept : quoteValue value = value := if_neg h
    rw [kept, kept]

end QueryFilter
