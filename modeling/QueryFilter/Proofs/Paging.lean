import QueryFilter.Proofs.Lookup

set_option relaxedAutoImplicit false
set_option autoImplicit false

/-!
# Going from page to page

The next page starts as many rows further on as the present page has, or at the greatest integer of
64 bits; the page before starts as many rows further up, or at the first row. A step sets the first row
and nothing else.

## Main definitions

* `QueryFilter.Filter.statedNumber?` — the number that a filter states for a keyword.

## Main results

* `QueryFilter.Filter.effectiveFirst_of_isNumeric`,
  `QueryFilter.Filter.effectiveRows_of_isNumeric` — the page that a filter asks for, from the numbers
  that it states.
* `QueryFilter.Filter.effectiveFirst_set`, `QueryFilter.Filter.effectiveFirst_delete` — other keywords
  leave the page alone.
* `QueryFilter.Filter.effectiveFirst_setValue_first`, `QueryFilter.Filter.effectiveRows_setValue_first` —
  the page that is asked for after the first row is set.
* `QueryFilter.Filter.exists_next_eq`, `QueryFilter.Filter.exists_previous_eq` — what one step sets.
-/

namespace QueryFilter

namespace Filter

variable {filter : Filter} {settings : Settings}

/-! ## Numbers that are stated -/

/-- The number that the first term with a keyword states, if its value is the text of an integer of
64 bits. -/
def statedNumber? (filter : Filter) (keyword : String) : Option Int64 :=
  (filter.getTerm? keyword).bind fun term => Text.Decimal.toInt64? term.value.toList

/-- The number that is found for a numeric keyword is the one that is stated. -/
theorem bind_number?_getWith? {keyword : String} (h : settings.isNumeric keyword = true)
    (filter : Filter) :
    (filter.getWith? settings keyword).bind KeywordValue.number? = filter.statedNumber? keyword := by
  rw [getWith?, statedNumber?]
  cases filter.getTerm? keyword with
  | none => rfl
  | some term =>
    rw [Option.map_some, Option.bind_some, Option.bind_some, valueOf, if_pos h]
    cases Text.Decimal.toInt64? term.value.toList with
    | none => rfl
    | some number => rfl

/-- The page starts at the row that is stated, if that is a row, and else where the first page does.
-/
theorem effectiveFirst_of_isNumeric (h : settings.isNumeric Keyword.first = true) (filter : Filter) :
    filter.effectiveFirst settings
      = ((filter.statedNumber? Keyword.first).filter fun n => 1 ≤ n.toInt).getD
        settings.defaultFirst := by
  rw [effectiveFirst, positiveNumber?, bind_number?_getWith? h]

/-- The page has as many rows as are stated, if there are any, and else as many as pages have. -/
theorem effectiveRows_of_isNumeric (h : settings.isNumeric Keyword.rows = true) (filter : Filter) :
    filter.effectiveRows settings
      = ((filter.statedNumber? Keyword.rows).filter fun n => 0 < n.toInt).getD
        settings.defaultRows := by
  rw [effectiveRows, positiveNumber?, bind_number?_getWith? h]
  rfl

/-- What is found or else the default is positive, when the default is. -/
theorem one_le_toInt_getD_positiveNumber? {default : Int64} (h : 1 ≤ default.toInt)
    (filter : Filter) (settings : Settings) (keyword : String) :
    1 ≤ ((filter.positiveNumber? settings keyword).getD default).toInt := by
  cases hnumber : filter.positiveNumber? settings keyword with
  | none => exact h
  | some number =>
    obtain ⟨-, hpositive⟩ := Option.filter_eq_some_iff.1 hnumber
    simpa using hpositive

/-- The page starts at a row. -/
theorem one_le_toInt_effectiveFirst (h : settings.IsValid) (filter : Filter) :
    1 ≤ (filter.effectiveFirst settings).toInt :=
  one_le_toInt_getD_positiveNumber? h.2 filter settings Keyword.first

/-- The page has rows. -/
theorem one_le_toInt_effectiveRows (h : settings.IsValid) (filter : Filter) :
    1 ≤ (filter.effectiveRows settings).toInt :=
  one_le_toInt_getD_positiveNumber? h.1 filter settings Keyword.rows

/-! ## Other keywords -/

section Other

variable {keyword : String}

/-- Setting another keyword leaves alone where the page starts. -/
theorem effectiveFirst_set (hne : keyword ≠ Keyword.first) (filter : Filter) (value : KeywordValue)
    (relation : Relation) (settings : Settings) :
    (filter.set keyword value relation).effectiveFirst settings = filter.effectiveFirst settings := by
  rw [effectiveFirst, effectiveFirst, positiveNumber?, positiveNumber?, getWith?_set_of_ne hne]

/-- Setting another keyword leaves alone how many rows a page has. -/
theorem effectiveRows_set (hne : keyword ≠ Keyword.rows) (filter : Filter) (value : KeywordValue)
    (relation : Relation) (settings : Settings) :
    (filter.set keyword value relation).effectiveRows settings = filter.effectiveRows settings := by
  rw [effectiveRows, effectiveRows, positiveNumber?, positiveNumber?, getWith?_set_of_ne hne]

/-- Deleting another keyword leaves alone where the page starts. -/
theorem effectiveFirst_delete (hne : keyword ≠ Keyword.first) (filter : Filter)
    (settings : Settings) :
    (filter.delete keyword).effectiveFirst settings = filter.effectiveFirst settings := by
  rw [effectiveFirst, effectiveFirst, positiveNumber?, positiveNumber?, getWith?_delete_of_ne hne]

/-- Deleting another keyword leaves alone how many rows a page has. -/
theorem effectiveRows_delete (hne : keyword ≠ Keyword.rows) (filter : Filter) (settings : Settings) :
    (filter.delete keyword).effectiveRows settings = filter.effectiveRows settings := by
  rw [effectiveRows, effectiveRows, positiveNumber?, positiveNumber?, getWith?_delete_of_ne hne]

end Other

/-! ## Setting a number -/

/-- A number that is set is stated. -/
theorem statedNumber?_setValue_number {keyword : String} (hk : Keyword.isValid keyword = true)
    (filter : Filter) (n : Int64) :
    (filter.setValue keyword (.number n)).statedNumber? keyword = some n := by
  rw [setValue, statedNumber?, getTerm?_set hk, Option.bind_some]
  exact Text.Decimal.toInt64?_ofInt64 n

/-- Setting a keyword leaves alone the number that is stated for another one. -/
theorem statedNumber?_setValue_of_ne {keyword other : String} (hne : keyword ≠ other)
    (filter : Filter) (value : KeywordValue) :
    (filter.setValue keyword value).statedNumber? other = filter.statedNumber? other := by
  rw [setValue, statedNumber?, getTerm?_set_of_ne hne, statedNumber?]

/-- What is found for a numeric keyword after a number is set is that number. -/
theorem getWith?_setValue_number {keyword : String} (hk : Keyword.isValid keyword = true)
    (hnumeric : settings.isNumeric keyword = true) (filter : Filter) (n : Int64) :
    (filter.setValue keyword (.number n)).getWith? settings keyword = some (.number n) := by
  rw [setValue, getWith?_set hk, valueOf_stored_number hnumeric]

/-- Setting the first row leaves alone how many rows a page has. -/
theorem effectiveRows_setValue_first (filter : Filter) (settings : Settings) (value : KeywordValue) :
    (filter.setValue Keyword.first value).effectiveRows settings = filter.effectiveRows settings :=
  effectiveRows_set (by decide) filter value .equal settings

/-- The page starts at the row that is set, if there is such a row. -/
theorem effectiveFirst_setValue_first (hfirst : settings.isNumeric Keyword.first = true)
    (filter : Filter) {start : Int64} (hstart : 1 ≤ start.toInt) :
    (filter.setValue Keyword.first (.number start)).effectiveFirst settings = start := by
  rw [effectiveFirst_of_isNumeric hfirst, statedNumber?_setValue_number (by decide),
    Option.filter_some, if_pos (by simpa using hstart), Option.getD_some]

/-! ## One step -/

/-- The page after a page starts where that one ends, or at the greatest integer. -/
theorem toInt_add_effective (h : settings.IsValid) (filter : Filter) :
    (Saturating.add (filter.effectiveFirst settings) (filter.effectiveRows settings)).toInt
      = min ((filter.effectiveFirst settings).toInt + (filter.effectiveRows settings).toInt)
        Int64.maxValue.toInt := by
  have hF := one_le_toInt_effectiveFirst h filter
  have hR := one_le_toInt_effectiveRows h filter
  have hmin : Int64.minValue.toInt = -9223372036854775808 := by decide
  have hmax : Int64.maxValue.toInt = 9223372036854775807 := by decide
  rw [Saturating.toInt_add, Saturating.clamp]
  omega

/-- The page before a page starts where the exact difference says, unless that is before the first
row: no difference of these numbers is below the least integer. -/
theorem toInt_sub_effective (h : settings.IsValid) (filter : Filter) :
    (Saturating.sub (filter.effectiveFirst settings) (filter.effectiveRows settings)).toInt
      = (filter.effectiveFirst settings).toInt - (filter.effectiveRows settings).toInt := by
  have hF := one_le_toInt_effectiveFirst h filter
  have hR := one_le_toInt_effectiveRows h filter
  have hFmax := Int64.toInt_le (filter.effectiveFirst settings)
  have hRmax := Int64.toInt_le (filter.effectiveRows settings)
  have hmin : Int64.minValue.toInt = -9223372036854775808 := by decide
  have hmax : Int64.maxValue.toInt = 9223372036854775807 := by decide
  rw [Saturating.toInt_sub, Saturating.clamp]
  omega

/-- Going to the next page sets `first` to the row after the present page, or to the greatest integer.
-/
theorem exists_next_eq (h : settings.IsValid) (filter : Filter) :
    ∃ start : Int64, start.toInt
        = min ((filter.effectiveFirst settings).toInt + (filter.effectiveRows settings).toInt)
          Int64.maxValue.toInt ∧
      filter.next settings = filter.setValue Keyword.first (.number start) :=
  ⟨_, toInt_add_effective h filter, rfl⟩

/-- Going to the page before sets `first` to the row that is a page further up, or to the first row.
-/
theorem exists_previous_eq (h : settings.IsValid) (filter : Filter) :
    ∃ start : Int64, start.toInt
        = max 1 ((filter.effectiveFirst settings).toInt - (filter.effectiveRows settings).toInt) ∧
      filter.previous settings = filter.setValue Keyword.first (.number start) := by
  have hsub := toInt_sub_effective h filter
  have hone : (1 : Int64).toInt = 1 := by decide
  refine ⟨_, ?_, rfl⟩
  split
  · omega
  · omega

end Filter

end QueryFilter
