import QueryFilter.Proofs.PageTurns
import QueryFilter.Proofs.Selection

set_option relaxedAutoImplicit false
set_option autoImplicit false

/-!
# Runs of steps from page to page

How far a run of steps in one direction leads, and where it ends when the direction changes. Steps are
taken back by steps in the other direction, unless a step on the way has been cut short by the greatest
integer or by the first row.

## Main results

* `QueryFilter.Filter.criteria_iterate_next` — the terms that select are the same on every page.
* `QueryFilter.Filter.isPage_iterate_next`, `QueryFilter.Filter.isPage_iterate_previous` — the page after
  any number of steps.
* `QueryFilter.Filter.iterate_next_changes_first` — what is found for `first` then, and where it stands.
* `QueryFilter.Filter.isPage_iterate_previous_and_back` — steps to earlier pages, and steps taken back.
-/

namespace QueryFilter

namespace Filter

variable {settings : Settings}

/-- The terms that select are the same on every page. -/
theorem criteria_iterate_next (filter : Filter) (settings : Settings) (n : Nat) :
    ((·.next settings)^[n] filter).criteria = filter.criteria := by
  induction n with
  | zero => rfl
  | succ n ih =>
    have hnext : (Edit.next settings).isArranging = true := rfl
    rw [Function.iterate_succ_apply']
    exact (criteria_apply hnext _).trans ih

/-! ## Steps in one direction -/

/-- **Any number of steps to the next page** goes over as many pages, or to the greatest integer. -/
theorem isPage_iterate_next (h : settings.IsValid)
    (hfirst : settings.isNumeric Keyword.first = true) (filter : Filter) {n : Nat} (hn : 1 ≤ n) :
    filter.IsPage settings ((·.next settings)^[n] filter)
      (min ((filter.effectiveFirst settings).toInt + n * (filter.effectiveRows settings).toInt)
        Int64.maxValue.toInt) := by
  rw [← Turn.foldl_row_replicate_next (one_le_toInt_effectiveRows h filter) (Int64.toInt_le _)]
  exact isPage_iterate_turn h hfirst filter .next hn

/-- **Any number of steps to the page before** goes over as many pages, or to the first row. -/
theorem isPage_iterate_previous (h : settings.IsValid)
    (hfirst : settings.isNumeric Keyword.first = true) (filter : Filter) {n : Nat} (hn : 1 ≤ n) :
    filter.IsPage settings ((·.previous settings)^[n] filter)
      (max 1
        ((filter.effectiveFirst settings).toInt - n * (filter.effectiveRows settings).toInt)) := by
  rw [← Turn.foldl_row_replicate_previous (one_le_toInt_effectiveRows h filter)
    (one_le_toInt_effectiveFirst h filter)]
  exact isPage_iterate_turn h hfirst filter .previous hn

/-- A run of steps to the next page sets `first` once. -/
theorem exists_iterate_next_eq (h : settings.IsValid)
    (hfirst : settings.isNumeric Keyword.first = true) (filter : Filter) {n : Nat} (hn : 1 ≤ n) :
    ∃ start : Int64, start.toInt
        = min ((filter.effectiveFirst settings).toInt + n * (filter.effectiveRows settings).toInt)
          Int64.maxValue.toInt ∧
      (·.next settings)^[n] filter = filter.setValue Keyword.first (.number start) := by
  obtain ⟨start, hstart, hpage, -⟩ := isPage_iterate_next h hfirst filter hn
  exact ⟨start, hstart, hpage⟩

/-- What is found for the first row after any number of steps but none. -/
theorem getWith?_iterate_next (h : settings.IsValid)
    (hfirst : settings.isNumeric Keyword.first = true) (filter : Filter) {n : Nat} (hn : 1 ≤ n) :
    ∃ first, ((·.next settings)^[n] filter).getWith? settings Keyword.first = some (.number first) ∧
      first.toInt
        = min ((filter.effectiveFirst settings).toInt + n * (filter.effectiveRows settings).toInt)
          Int64.maxValue.toInt := by
  obtain ⟨start, hstart, -, hread⟩ := isPage_iterate_next h hfirst filter hn
  exact ⟨start, hread, hstart⟩

/-- **A run of steps to the next page.** Valid settings make `first` and `rows` numeric. After one
step or more, what is found for `first` is the row that is as many pages further on as there were
steps, or the greatest integer; the first page and its size are what the filter states, if that makes
sense, and else what the settings say. One term is changed and nothing else: the first term for
`first`, where it stands, or a new one at the end if there was none, which now says that `first`
equals the decimal text of that row. No sum on the way overflows: each is the exact one or ends at the
greatest integer. -/
theorem iterate_next_changes_first (h : settings.validate = .ok settings)
    (hfirst : settings.isNumeric Keyword.first = true)
    (hrows : settings.isNumeric Keyword.rows = true) (filter : Filter) {n : Nat} (hn : 1 ≤ n) :
    let first := ((filter.statedNumber? Keyword.first).filter (1 ≤ ·.toInt)).getD
      settings.defaultFirst
    let rows := ((filter.statedNumber? Keyword.rows).filter (0 < ·.toInt)).getD
      settings.defaultRows
    let page (m : Nat) := (·.next settings)^[m] filter
    (∃ start : Int64, start.toInt = min (first.toInt + n * rows.toInt) Int64.maxValue.toInt ∧
      (page n).getWith? settings Keyword.first = some (.number start) ∧
      (∀ i, filter.terms.findIdx? (·.hasKeyword Keyword.first) = some i →
        page n = { filter with
          terms := filter.terms.set i
            (.keyed Keyword.first .equal (Text.Decimal.ofInt64 start)) }) ∧
      (filter.terms.findIdx? (·.hasKeyword Keyword.first) = none →
        page n = { filter with
          terms := filter.terms ++
            [.keyed Keyword.first .equal (Text.Decimal.ofInt64 start)] })) ∧
    ∀ m < n,
      (Saturating.add ((page m).effectiveFirst settings) ((page m).effectiveRows settings)).toInt
        = min (((page m).effectiveFirst settings).toInt + ((page m).effectiveRows settings).toInt)
          Int64.maxValue.toInt := by
  intro first rows page
  have hvalid := (Settings.validate_eq_ok_iff.1 h).1
  have hk : Keyword.isValid Keyword.first = true := by decide
  have hF : filter.effectiveFirst settings = first := effectiveFirst_of_isNumeric hfirst filter
  have hR : filter.effectiveRows settings = rows := effectiveRows_of_isNumeric hrows filter
  constructor
  · obtain ⟨start, hstart, hrun⟩ := exists_iterate_next_eq hvalid hfirst filter hn
    rw [hF, hR] at hstart
    refine ⟨start, hstart, ?_, ?_, ?_⟩
    · rw [show page n = _ from hrun, getWith?_setValue_number hk hfirst]
    · intro i hi
      rw [show page n = _ from hrun]
      exact set_eq_of_findIdx?_eq_some hk hi (.number start) .equal
    · intro hnone
      rw [show page n = _ from hrun]
      exact set_eq_of_findIdx?_eq_none hk hnone (.number start) .equal
  · intro m _
    exact toInt_add_effective hvalid (page m)

/-- Two steps with four rows to a page, the second of which ends at the greatest integer. The filter
has a second term for `first`. -/
theorem iterate_next_changes_first_two :
    let filter := ofString "x first=9223372036854775800 rows=4 first=3"
    let page := (·.next .default)^[2] filter
    Settings.default.validate = .ok .default ∧
      Settings.default.isNumeric Keyword.first = true ∧
      Settings.default.isNumeric Keyword.rows = true ∧
      filter.terms.findIdx? (·.hasKeyword Keyword.first) = some 1 ∧
      page.getWith? .default Keyword.first = some (.number Int64.maxValue) ∧
      page = { filter with
        terms := filter.terms.set 1
          (.keyed Keyword.first .equal (Text.Decimal.ofInt64 Int64.maxValue)) } := by
  intro filter page
  have hvalid : Settings.default.validate = .ok .default := by decide
  have hfirst : Settings.default.isNumeric Keyword.first = true := by decide
  have hrows : Settings.default.isNumeric Keyword.rows = true := by decide
  have hindex : filter.terms.findIdx? (·.hasKeyword Keyword.first) = some 1 := by
    decide +kernel +zetaReduce
  obtain ⟨⟨start, hstart, hread, hplace, -⟩, -⟩ :=
    @iterate_next_changes_first .default hvalid hfirst hrows filter 2 (by omega)
  have hlast : start = Int64.maxValue := by
    rw [← Int64.toInt_inj, hstart]
    decide +kernel +zetaReduce
  rw [hlast] at hread hplace
  exact ⟨hvalid, hfirst, hrows, hindex, hread, hplace 1 hindex⟩

/-! ## Steps that are taken back -/

/-- **Steps to the page before, and steps taken back.** Valid settings make `first` and `rows` numeric;
the first page and its size are what the filter states, if that makes sense, and else what the settings
say. Any number of steps to the page before, but none, goes as many pages back, or to the first row; no
difference on the way is out of range. The step before takes back the step to the next page, unless that
one was cut short and has gone to the greatest integer, and the step to the next page takes back the step
before, unless that one was cut short and has gone to the first row. Apart from the first row the filter
is the same after all of these. -/
theorem isPage_iterate_previous_and_back (h : settings.validate = .ok settings)
    (hfirst : settings.isNumeric Keyword.first = true)
    (hrows : settings.isNumeric Keyword.rows = true) (filter : Filter) :
    let first := ((filter.statedNumber? Keyword.first).filter (1 ≤ ·.toInt)).getD
      settings.defaultFirst
    let rows := ((filter.statedNumber? Keyword.rows).filter (0 < ·.toInt)).getD
      settings.defaultRows
    (∀ n : Nat, 1 ≤ n →
      filter.IsPage settings ((·.previous settings)^[n] filter)
        (max 1 (first.toInt - n * rows.toInt))) ∧
    (∀ page : Filter,
      (Saturating.sub (page.effectiveFirst settings) (page.effectiveRows settings)).toInt
        = (page.effectiveFirst settings).toInt - (page.effectiveRows settings).toInt) ∧
    filter.IsPage settings ((filter.next settings).previous settings)
      (if first.toInt + rows.toInt ≤ Int64.maxValue.toInt then first.toInt
        else max 1 (Int64.maxValue.toInt - rows.toInt)) ∧
    filter.IsPage settings ((filter.previous settings).next settings)
      (if rows.toInt < first.toInt then first.toInt
        else min (1 + rows.toInt) Int64.maxValue.toInt) := by
  intro first rows
  have hvalid := (Settings.validate_eq_ok_iff.1 h).1
  have hF : filter.effectiveFirst settings = first := effectiveFirst_of_isNumeric hfirst filter
  have hR : filter.effectiveRows settings = rows := effectiveRows_of_isNumeric hrows filter
  have hone : 1 ≤ first.toInt := hF ▸ one_le_toInt_effectiveFirst hvalid filter
  have hmax : first.toInt ≤ Int64.maxValue.toInt := Int64.toInt_le first
  refine ⟨?_, toInt_sub_effective hvalid, ?_, ?_⟩
  · intro n hn
    have hpage := isPage_iterate_previous hvalid hfirst filter hn
    rwa [hF, hR] at hpage
  · have hpage := isPage_foldl_turn hvalid hfirst filter .next [.previous]
    have hrow : [.next, .previous].foldl (Turn.row rows.toInt) first.toInt
        = if first.toInt + rows.toInt ≤ Int64.maxValue.toInt then first.toInt
          else max 1 (Int64.maxValue.toInt - rows.toInt) := by
      rw [List.foldl_cons, List.foldl_cons, List.foldl_nil, Turn.row, Turn.row]
      split
      · omega
      · omega
    rwa [hF, hR, hrow] at hpage
  · have hpage := isPage_foldl_turn hvalid hfirst filter .previous [.next]
    have hrow : [.previous, .next].foldl (Turn.row rows.toInt) first.toInt
        = if rows.toInt < first.toInt then first.toInt
          else min (1 + rows.toInt) Int64.maxValue.toInt := by
      rw [List.foldl_cons, List.foldl_cons, List.foldl_nil, Turn.row, Turn.row]
      split
      · omega
      · omega
    rwa [hF, hR, hrow] at hpage

/-- Three steps to the page before with ten rows to a page, close to the greatest integer; the step to
the next page is cut short there and cannot be taken back. The filter has a second term for `first`. -/
theorem isPage_iterate_previous_and_back_three :
    let filter := ofString "x first=9223372036854775800 rows=10 first=3"
    Settings.default.validate = .ok .default ∧
      Settings.default.isNumeric Keyword.first = true ∧
      Settings.default.isNumeric Keyword.rows = true ∧
      (·.previous .default)^[3] filter
        = filter.setValue Keyword.first (.number 9223372036854775770) ∧
      (filter.next .default).previous .default
        = filter.setValue Keyword.first (.number 9223372036854775797) ∧
      (filter.previous .default).next .default
        = filter.setValue Keyword.first (.number 9223372036854775800) := by
  intro filter
  have hvalid : Settings.default.validate = .ok .default := by decide
  have hfirst : Settings.default.isNumeric Keyword.first = true := by decide
  have hrows : Settings.default.isNumeric Keyword.rows = true := by decide
  obtain ⟨hprevious, -, hback, hforth⟩ :=
    isPage_iterate_previous_and_back hvalid hfirst hrows filter
  refine ⟨hvalid, hfirst, hrows, (hprevious 3 (by omega)).eq_setValue ?_, hback.eq_setValue ?_,
    hforth.eq_setValue ?_⟩
  all_goals decide +kernel +zetaReduce

end Filter

end QueryFilter
