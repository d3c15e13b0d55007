import QueryFilter.Proofs.DistinctKeywords

set_option relaxedAutoImplicit false
set_option autoImplicit false

/-!
# Looking up a keyword after it is set

What is found for a keyword that was set is the value that the stored text stands for, which is not
always the value that was set: a text of digits is read as a number when the keyword is numeric, and a
text with a separator comes back in quotes. Other keywords are found as before.

## Main results

* `QueryFilter.Filter.getTerm?_set_of_ne`, `QueryFilter.Filter.getWith?_set_of_ne` — other keywords.
* `QueryFilter.Filter.getWith?_set` — the keyword that was set.
* `QueryFilter.Filter.valueOf_stored_number`, `QueryFilter.Filter.valueOf_stored_valueOf` — the values
  that come back as they are.
-/

namespace QueryFilter

namespace Filter

variable {settings : Settings} {keyword other : String}

/-! ## Values and stored texts -/

/-- The text of a keyword that is not numeric stands for itself. -/
theorem valueOf_of_not_isNumeric (h : settings.isNumeric keyword = false) (text : String) :
    valueOf settings keyword text = .text text := by
  rw [valueOf, h]
  exact if_neg Bool.false_ne_true

/-- A text that is no integer of 64 bits stands for itself, also for a numeric keyword. -/
theorem valueOf_of_toInt64?_eq_none {text : String}
    (h : Text.Decimal.toInt64? text.toList = none) (settings : Settings) (keyword : String) :
    valueOf settings keyword text = .text text := by
  rw [valueOf, h]
  split
  · rfl
  · rfl

/-- A text of a numeric keyword that is an integer of 64 bits stands for that integer. -/
theorem valueOf_of_toInt64?_eq_some (h : settings.isNumeric keyword = true) {text : String}
    {n : Int64} (hread : Text.Decimal.toInt64? text.toList = some n) :
    valueOf settings keyword text = .number n := by
  rw [valueOf, if_pos h, hread]

/-- What is stored for a number stands for that number, if the keyword is numeric. -/
theorem valueOf_stored_number (h : settings.isNumeric keyword = true) (n : Int64) :
    valueOf settings keyword (KeywordValue.number n).stored = .number n :=
  valueOf_of_toInt64?_eq_some h (Text.Decimal.toInt64?_ofInt64 n)

/-- What is stored for the value of a text stands for the same value, if the text needs no quotes.

**Proof sketch.** A text that stands for itself is stored unchanged. One that stands for a number may be
stored in another form, without a plus sign or leading zeros, which stands for the same number. -/
theorem valueOf_stored_valueOf {text : String} (h : quoteValue text = text) (settings : Settings)
    (keyword : String) :
    valueOf settings keyword (valueOf settings keyword text).stored
      = valueOf settings keyword text := by
  have hself (htext : valueOf settings keyword text = .text text) :
      valueOf settings keyword (valueOf settings keyword text).stored
        = valueOf settings keyword text := by
    rw [htext, KeywordValue.stored, h, htext]
  cases hnumeric : settings.isNumeric keyword with
  | false => exact hself (valueOf_of_not_isNumeric hnumeric text)
  | true =>
    cases hread : Text.Decimal.toInt64? text.toList with
    | none => exact hself (valueOf_of_toInt64?_eq_none hread settings keyword)
    | some n =>
      rw [valueOf_of_toInt64?_eq_some hnumeric hread, valueOf_stored_number hnumeric]

/-! ## Finding what was set -/

/-- What is found for a keyword that was set is the value that the stored text stands for. -/
theorem getWith?_set (hk : Keyword.isValid keyword = true) (filter : Filter) (value : KeywordValue)
    (relation : Relation) (settings : Settings) :
    (filter.set keyword value relation).getWith? settings keyword
      = some (valueOf settings keyword value.stored) := by
  rw [getWith?, getTerm?_set hk]
  rfl

/-- Setting a keyword leaves alone what is found for another one. -/
theorem getTerm?_set_of_ne (hne : keyword ≠ other) (filter : Filter) (value : KeywordValue)
    (relation : Relation) :
    (filter.set keyword value relation).getTerm? other = filter.getTerm? other := by
  unfold set
  split
  · next hk =>
    exact Term.find?_upsert_of_ne hne (Term.keyword_keyed hk relation value.stored)
      (Term.keyword_replace · relation value.stored) filter.terms
  · rfl

/-- Setting a keyword leaves alone the value that is found for another one. -/
theorem getWith?_set_of_ne (hne : keyword ≠ other) (filter : Filter) (value : KeywordValue)
    (relation : Relation) (settings : Settings) :
    (filter.set keyword value relation).getWith? settings other
      = filter.getWith? settings other := by
  rw [getWith?, getWith?, getTerm?_set_of_ne hne]

/-- Deleting a keyword leaves alone the value that is found for another one. -/
theorem getWith?_delete_of_ne (hne : keyword ≠ other) (filter : Filter) (settings : Settings) :
    (filter.delete keyword).getWith? settings other = filter.getWith? settings other := by
  have hfind : (filter.delete keyword).getTerm? other = filter.getTerm? other :=
    Term.find?_eraseP_of_ne hne filter.terms
  rw [getWith?, getWith?, hfind]

end Filter

end QueryFilter
