import QueryFilter.Proofs.Paging

set_option relaxedAutoImplicit false
set_option autoImplicit false

/-!
# Numeric keywords and pages

The settings say which keywords have numbers as values. The steps from page to page look `first` and
`rows` up as any other keyword, so for them too the text of a term counts only if the keyword is
numeric; otherwise the default is taken although the filter states a number. This file finds out
which settings with the same defaults lead from every filter to the same pages.

## Main definitions

* `QueryFilter.Filter.ofPage` — a filter that states a page and nothing else.
* `QueryFilter.Filter.SamePages` — two settings lead from every filter to the same pages.

## Main results

* `QueryFilter.Filter.getD_positiveNumber?_of_statedNumber?` — when a number that is stated counts.
* `QueryFilter.Filter.terms_next_eq_iff`, `QueryFilter.Filter.terms_previous_eq_iff` — when one filter
  has the same neighbouring page under two settings.
* `QueryFilter.Filter.forall_pages_eq_iff` — when all filters have.
-/

namespace QueryFilter

namespace Filter

variable {settings other : Settings}

/-! ## When a number counts -/

/-- No number is found for a keyword that is not numeric. -/
theorem positiveNumber?_of_not_isNumeric {keyword : String}
    (h : settings.isNumeric keyword = false) (filter : Filter) :
    filter.positiveNumber? settings keyword = none := by
  rw [positiveNumber?, getWith?]
  cases filter.getTerm? keyword with
  | none => rfl
  | some term =>
    rw [Option.map_some, Option.bind_some, valueOf_of_not_isNumeric h]
    rfl

/-- A number that is stated counts if the keyword is numeric and the number is at least one, and
otherwise the default does. -/
theorem getD_positiveNumber?_of_statedNumber? {filter : Filter} {keyword : String} {n : Int64}
    (h : filter.statedNumber? keyword = some n) (settings : Settings) (default : Int64) :
    (filter.positiveNumber? settings keyword).getD default
      = if settings.isNumeric keyword = true ∧ 1 ≤ n.toInt then n else default := by
  cases hnumeric : settings.isNumeric keyword with
  | true =>
    rw [positiveNumber?, bind_number?_getWith? hnumeric, h, Option.filter_some]
    by_cases hn : 1 ≤ n.toInt
    · simp [hn]
    · simp [hn]
  | false =>
    rw [positiveNumber?_of_not_isNumeric hnumeric]
    simp

/-- Settings that agree on whether a keyword is numeric find the same number for it. -/
theorem positiveNumber?_congr {keyword : String}
    (h : settings.isNumeric keyword = other.isNumeric keyword) (filter : Filter) :
    filter.positiveNumber? settings keyword = filter.positiveNumber? other keyword := by
  unfold positiveNumber? getWith? valueOf
  rw [h]

/-- A positive number that is stated is the one that is taken, if the keyword is numeric, and
otherwise only if it is the default. -/
theorem getD_positiveNumber?_eq_iff {filter : Filter} {keyword : String} {n : Int64}
    (h : filter.statedNumber? keyword = some n) (hn : 1 ≤ n.toInt) (settings : Settings)
    (default : Int64) :
    (filter.positiveNumber? settings keyword).getD default = n
      ↔ settings.isNumeric keyword = true ∨ n = default := by
  rw [getD_positiveNumber?_of_statedNumber? h]
  cases settings.isNumeric keyword with
  | true => simp [hn]
  | false => simp [eq_comm]

/-! ## The neighbouring pages of one filter -/

/-- A number that is set can be told from every other one. -/
theorem terms_setValue_number_eq_iff {keyword : String} (hk : Keyword.isValid keyword = true)
    (filter : Filter) (a b : Int64) :
    (filter.setValue keyword (.number a)).terms = (filter.setValue keyword (.number b)).terms
      ↔ a.toInt = b.toInt := by
  constructor
  · intro h
    have hstated : (filter.setValue keyword (.number a)).statedNumber? keyword
        = (filter.setValue keyword (.number b)).statedNumber? keyword := by
      rw [statedNumber?, statedNumber?, getTerm?, getTerm?, h]
    rw [statedNumber?_setValue_number hk, statedNumber?_setValue_number hk] at hstated
    rw [Option.some.inj hstated]
  · intro h
    rw [Int64.toInt_inj.1 h]

/-- One filter has the same next page under two settings when the pages that it asks for end at the
same row, or both beyond the greatest integer. -/
theorem terms_next_eq_iff (hs : settings.IsValid) (ho : other.IsValid) (filter : Filter) :
    (filter.next settings).terms = (filter.next other).terms ↔
      min ((filter.effectiveFirst settings).toInt + (filter.effectiveRows settings).toInt)
          Int64.maxValue.toInt
        = min ((filter.effectiveFirst other).toInt + (filter.effectiveRows other).toInt)
          Int64.maxValue.toInt := by
  obtain ⟨a, ha, hnext⟩ := exists_next_eq hs filter
  obtain ⟨b, hb, hnext'⟩ := exists_next_eq ho filter
  rw [hnext, hnext', ← ha, ← hb, terms_setValue_number_eq_iff (by decide)]

/-- One filter has the same previous page under two settings when the pages before those that it asks
for start at the same row, or both at the first one. -/
theorem terms_previous_eq_iff (hs : settings.IsValid) (ho : other.IsValid) (filter : Filter) :
    (filter.previous settings).terms = (filter.previous other).terms ↔
      max 1 ((filter.effectiveFirst settings).toInt - (filter.effectiveRows settings).toInt)
        = max 1 ((filter.effectiveFirst other).toInt - (filter.effectiveRows other).toInt) := by
  obtain ⟨a, ha, hprevious⟩ := exists_previous_eq hs filter
  obtain ⟨b, hb, hprevious'⟩ := exists_previous_eq ho filter
  rw [hprevious, hprevious', ← ha, ← hb, terms_setValue_number_eq_iff (by decide)]

/-! ## Filters that state a page -/

/-- The filter that states a page and nothing else. With zero for a number the default is asked
for. -/
def ofPage (first rows : Int64) : Filter :=
  (empty.setValue Keyword.first (.number first)).setValue Keyword.rows (.number rows)

/-- The first row of a page that is stated. -/
theorem effectiveFirst_ofPage (first rows : Int64) (settings : Settings) :
    (ofPage first rows).effectiveFirst settings
      = if settings.isNumeric Keyword.first = true ∧ 1 ≤ first.toInt then first
        else settings.defaultFirst := by
  have hne : Keyword.rows ≠ Keyword.first := by decide
  have hstated : (ofPage first rows).statedNumber? Keyword.first = some first := by
    rw [ofPage, statedNumber?_setValue_of_ne hne, statedNumber?_setValue_number (by decide)]
  exact getD_positiveNumber?_of_statedNumber? hstated settings settings.defaultFirst

/-- The number of rows of a page that is stated. -/
theorem effectiveRows_ofPage (first rows : Int64) (settings : Settings) :
    (ofPage first rows).effectiveRows settings
      = if settings.isNumeric Keyword.rows = true ∧ 1 ≤ rows.toInt then rows
        else settings.defaultRows := by
  have hstated : (ofPage first rows).statedNumber? Keyword.rows = some rows :=
    statedNumber?_setValue_number (by decide) _ rows
  exact getD_positiveNumber?_of_statedNumber? hstated settings settings.defaultRows

/-! ## The neighbouring pages of all filters -/

/-- Two settings lead from every filter to the same neighbouring pages. -/
def SamePages (settings other : Settings) : Prop :=
  ∀ filter : Filter, (filter.next settings).terms = (filter.next other).terms ∧
    (filter.previous settings).terms = (filter.previous other).terms

/-- Two settings with the same pages have them in either order. -/
theorem SamePages.symm (h : SamePages settings other) : SamePages other settings :=
  fun filter => ⟨(h filter).1.symm, (h filter).2.symm⟩

/-- Settings that agree on whether `first` and `rows` are numeric have the same pages. -/
theorem samePages_of_isNumeric_eq (hrows : settings.defaultRows = other.defaultRows)
    (hfirst : settings.defaultFirst = other.defaultFirst)
    (hr : settings.isNumeric Keyword.rows = other.isNumeric Keyword.rows)
    (hf : settings.isNumeric Keyword.first = other.isNumeric Keyword.first) :
    SamePages settings other := by
  intro filter
  have hF : filter.effectiveFirst settings = filter.effectiveFirst other := by
    rw [effectiveFirst, effectiveFirst, positiveNumber?_congr hf, hfirst]
  have hR : filter.effectiveRows settings = filter.effectiveRows other := by
    rw [effectiveRows, effectiveRows, positiveNumber?_congr hr, hrows]
  unfold next previous
  rw [hF, hR]
  exact ⟨rfl, rfl⟩

/-- Settings for which `rows` is not numeric have the same pages when these are very large: every next
one starts at the greatest integer, and every one before at the first row. -/
theorem samePages_of_le_defaultRows (hs : settings.IsValid) (ho : other.IsValid)
    (hrows : settings.defaultRows = other.defaultRows)
    (hr : settings.isNumeric Keyword.rows = other.isNumeric Keyword.rows)
    (hnot : settings.isNumeric Keyword.rows = false)
    (hall : Int64.maxValue.toInt - 1 ≤ settings.defaultRows.toInt) : SamePages settings other := by
  intro filter
  have hR : filter.effectiveRows settings = settings.defaultRows := by
    rw [effectiveRows, positiveNumber?_of_not_isNumeric hnot, Option.getD_none]
  have hR' : filter.effectiveRows other = settings.defaultRows := by
    rw [effectiveRows, positiveNumber?_of_not_isNumeric (hr ▸ hnot), Option.getD_none, hrows]
  have hF := one_le_toInt_effectiveFirst hs filter
  have hF' := one_le_toInt_effectiveFirst ho filter
  have hFmax := Int64.toInt_le (filter.effectiveFirst settings)
  have hFmax' := Int64.toInt_le (filter.effectiveFirst other)
  rw [terms_next_eq_iff hs ho, terms_previous_eq_iff hs ho, hR, hR']
  constructor
  · omega
  · omega

/-- Under settings with the same pages, the pages that a filter asks for end at the same row, or both
beyond the greatest integer, and those before them start at the same row, or both at the first one.
-/
theorem SamePages.neighbours_eq (h : SamePages settings other) (hs : settings.IsValid)
    (ho : other.IsValid) (filter : Filter) :
    min ((filter.effectiveFirst settings).toInt + (filter.effectiveRows settings).toInt)
          Int64.maxValue.toInt
        = min ((filter.effectiveFirst other).toInt + (filter.effectiveRows other).toInt)
          Int64.maxValue.toInt ∧
      max 1 ((filter.effectiveFirst settings).toInt - (filter.effectiveRows settings).toInt)
        = max 1 ((filter.effectiveFirst other).toInt - (filter.effectiveRows other).toInt) := by
  rw [← terms_next_eq_iff hs ho, ← terms_previous_eq_iff hs ho]
  exact h filter

/-- There is a number other than a given one: one, or two if the given one is one. -/
theorem exists_small_ne (n : Int) :
    ∃ m : Int64, m.toInt ≠ n ∧ (m.toInt = 1 ∨ m.toInt = 2 ∧ n = 1) := by
  have hone : (1 : Int64).toInt = 1 := by decide
  have htwo : (2 : Int64).toInt = 2 := by decide
  by_cases hn : n = 1
  · exact ⟨2, by omega, .inr ⟨htwo, hn⟩⟩
  · exact ⟨1, by omega, .inl hone⟩

/-- Settings with the same pages agree on whether `rows` is numeric: a filter that states another
number of rows than the default tells them apart.

**Proof sketch.** The filter states no first row, so that the pages start at the same row. If the next
pages do not differ because both start at the greatest integer, the pages before them do. -/
theorem SamePages.isNumeric_rows (h : SamePages settings other) (hs : settings.IsValid)
    (ho : other.IsValid) (hfirst : settings.defaultFirst = other.defaultFirst)
    (hnumeric : settings.isNumeric Keyword.rows = true) :
    other.isNumeric Keyword.rows = true := by
  by_contra hnot
  obtain ⟨rows, hne, hsmall⟩ := exists_small_ne other.defaultRows.toInt
  have hge : 1 ≤ rows.toInt := by omega
  have hpages := h.neighbours_eq hs ho (ofPage 0 rows)
  have hzero : ¬ 1 ≤ (0 : Int64).toInt := by decide
  have hmax : Int64.maxValue.toInt = 9223372036854775807 := by decide
  have hF := ho.2
  have hR := ho.1
  have hFmax := Int64.toInt_le other.defaultFirst
  simp only [effectiveFirst_ofPage, effectiveRows_ofPage, hnumeric, hnot, hge, hzero, hfirst,
    and_false, and_true, if_true, if_false] at hpages
  omega

/-- Settings with the same pages agree on whether `first` is numeric, unless the pages are so large
that every next one starts at the greatest integer: a filter that states another first row than the
default tells them apart. -/
theorem SamePages.isNumeric_first (h : SamePages settings other) (hs : settings.IsValid)
    (ho : other.IsValid) (hrows : settings.defaultRows = other.defaultRows)
    (hr : settings.isNumeric Keyword.rows = other.isNumeric Keyword.rows)
    (hsmall : settings.isNumeric Keyword.rows = true ∨
      settings.defaultRows.toInt < Int64.maxValue.toInt - 1)
    (hnumeric : settings.isNumeric Keyword.first = true) :
    other.isNumeric Keyword.first = true := by
  by_contra hnot
  obtain ⟨first, hne, hother⟩ := exists_small_ne other.defaultFirst.toInt
  have hge : 1 ≤ first.toInt := by omega
  have hpages := h.neighbours_eq hs ho (ofPage first 1)
  -- with one row to a page where that can be stated, no page ends at the greatest integer
  have hsize : (ofPage first 1).effectiveRows settings
      = (ofPage first 1).effectiveRows other := by
    rw [effectiveRows_ofPage, effectiveRows_ofPage, hr, hrows]
  have hlt : ((ofPage first 1).effectiveRows settings).toInt
      < Int64.maxValue.toInt - 1 := by
    rw [effectiveRows_ofPage]
    split
    · decide
    · next hnone =>
      have hone : 1 ≤ (1 : Int64).toInt := by decide
      exact hsmall.resolve_left fun hrows => hnone ⟨hrows, hone⟩
  have hF := ho.2
  rw [hsize, effectiveFirst_ofPage, effectiveFirst_ofPage, if_pos ⟨hnumeric, hge⟩,
    if_neg fun hboth => hnot hboth.1] at hpages
  rw [hsize] at hlt
  omega

/-- **When two settings with the same defaults have the same pages.**

**Proof sketch.** Settings that agree find the same numbers. Settings that do not agree are told apart
by a filter that states one number other than the default, chosen so small that the sums do not all
end at the greatest integer. -/
theorem samePages_iff (hs : settings.IsValid) (ho : other.IsValid)
    (hrows : settings.defaultRows = other.defaultRows)
    (hfirst : settings.defaultFirst = other.defaultFirst) :
    SamePages settings other ↔
      settings.isNumeric Keyword.rows = other.isNumeric Keyword.rows ∧
        (settings.isNumeric Keyword.first = other.isNumeric Keyword.first ∨
          settings.isNumeric Keyword.rows = false ∧
            Int64.maxValue.toInt - 1 ≤ settings.defaultRows.toInt) := by
  constructor
  · intro h
    have hr : settings.isNumeric Keyword.rows = other.isNumeric Keyword.rows := by
      rw [Bool.eq_iff_iff]
      exact ⟨h.isNumeric_rows hs ho hfirst, h.symm.isNumeric_rows ho hs hfirst.symm⟩
    refine ⟨hr, ?_⟩
    by_cases hlarge : settings.isNumeric Keyword.rows = false ∧
        Int64.maxValue.toInt - 1 ≤ settings.defaultRows.toInt
    · exact .inr hlarge
    · have hsmall : settings.isNumeric Keyword.rows = true ∨
          settings.defaultRows.toInt < Int64.maxValue.toInt - 1 := by
        cases hnumeric : settings.isNumeric Keyword.rows with
        | true => exact .inl rfl
        | false => exact .inr (Int.not_le.1 fun hle => hlarge ⟨hnumeric, hle⟩)
      left
      rw [Bool.eq_iff_iff]
      exact ⟨h.isNumeric_first hs ho hrows hr hsmall,
        h.symm.isNumeric_first ho hs hrows.symm hr.symm (by rwa [← hr, ← hrows])⟩
  · rintro ⟨hr, hf | ⟨hnot, hlarge⟩⟩
    · exact samePages_of_isNumeric_eq hrows hfirst hr hf
    · exact samePages_of_le_defaultRows hs ho hrows hr hnot hlarge

/-- **When the numeric keywords do not matter to paging.** Two valid settings with the same defaults
lead from every filter to the same neighbouring pages if and only if they agree on whether `rows` is
numeric, and on whether `first` is, where the latter does not count if `rows` is not numeric and pages
of the default size are so large that every next one starts at the greatest integer. A positive number
that a filter states for `first` or `rows` is honoured if and only if the keyword is numeric or the
number is the default. -/
theorem forall_pages_eq_iff (hs : settings.validate = .ok settings)
    (ho : other.validate = .ok other) (hrows : settings.defaultRows = other.defaultRows)
    (hfirst : settings.defaultFirst = other.defaultFirst) :
    ((∀ filter : Filter, (filter.next settings).terms = (filter.next other).terms ∧
        (filter.previous settings).terms = (filter.previous other).terms) ↔
      settings.isNumeric Keyword.rows = other.isNumeric Keyword.rows ∧
        (settings.isNumeric Keyword.first = other.isNumeric Keyword.first ∨
          settings.isNumeric Keyword.rows = false ∧
            Int64.maxValue.toInt - 1 ≤ settings.defaultRows.toInt)) ∧
    ∀ (filter : Filter) (n : Int64), 1 ≤ n.toInt →
      (filter.statedNumber? Keyword.first = some n →
        (filter.effectiveFirst settings = n ↔
          settings.isNumeric Keyword.first = true ∨ n = settings.defaultFirst)) ∧
      (filter.statedNumber? Keyword.rows = some n →
        (filter.effectiveRows settings = n ↔
          settings.isNumeric Keyword.rows = true ∨ n = settings.defaultRows)) := by
  have hs' := (Settings.validate_eq_ok_iff.1 hs).1
  have ho' := (Settings.validate_eq_ok_iff.1 ho).1
  refine ⟨samePages_iff hs' ho' hrows hfirst, ?_⟩
  intro filter n hn
  constructor
  · intro hstated
    exact getD_positiveNumber?_eq_iff hstated hn settings settings.defaultFirst
  · intro hstated
    exact getD_positiveNumber?_eq_iff hstated hn settings settings.defaultRows

/-- The default settings and others that have the keywords of paging and one more as numeric. -/
theorem forall_pages_eq_level :
    let other : Settings := ⟨10, 1, ["level", Keyword.rows, Keyword.first]⟩
    Settings.default.validate = .ok .default ∧ other.validate = .ok other ∧
      (∀ filter : Filter, (filter.next .default).terms = (filter.next other).terms ∧
        (filter.previous .default).terms = (filter.previous other).terms) ∧
      (ofString "first=5 rows=20").effectiveFirst .default = 5 ∧
      (ofString "first=5 rows=20").effectiveRows .default = 20 := by
  intro other
  have hdefault : Settings.default.validate = .ok .default := by decide
  have hother : other.validate = .ok other := by decide +zetaReduce
  have h := forall_pages_eq_iff hdefault hother rfl rfl
  refine ⟨hdefault, hother, ?_, ?_, ?_⟩
  · exact h.1.2 ⟨by decide +zetaReduce, .inl (by decide +zetaReduce)⟩
  · have hstated : (ofString "first=5 rows=20").statedNumber? Keyword.first = some 5 := by
      decide +kernel
    exact ((h.2 _ 5 (by decide)).1 hstated).2 (.inl (by decide))
  · have hstated : (ofString "first=5 rows=20").statedNumber? Keyword.rows = some 20 := by
      decide +kernel
    exact ((h.2 _ 20 (by decide)).2 hstated).2 (.inl (by decide))

/-- The numeric keywords are not without effect on paging: where `first` is not one of them, a row
that a filter states is passed over. -/
theorem not_forall_pages_eq :
    ¬ ∀ (settings other : Settings) (filter : Filter), settings.validate = .ok settings →
      other.validate = .ok other → settings.defaultRows = other.defaultRows →
        settings.defaultFirst = other.defaultFirst →
          (filter.next settings).terms = (filter.next other).terms ∧
            (filter.previous settings).terms = (filter.previous other).terms := by
  intro h
  have hpages := h .default ⟨10, 1, []⟩ (ofString "first=5 rows=20") (by decide) (by decide) rfl rfl
  revert hpages
  decide +kernel

end Filter

end QueryFilter
