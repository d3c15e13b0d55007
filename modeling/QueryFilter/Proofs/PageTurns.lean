import Mathlib.Logic.Function.Iterate
import QueryFilter.Proofs.Overwriting
import QueryFilter.Proofs.Paging

set_option relaxedAutoImplicit false
set_option autoImplicit false

/-!
# Turning pages

A step to a neighbouring page reads the first row of the page and writes another one into the same
term, where the next step reads it. So any run of steps, to and fro, sets `first` once, and the row
that it sets comes out of a calculation with integers in which the number of rows is fixed.

## Main definitions

* `QueryFilter.Turn` — the steps to the neighbouring pages.
* `QueryFilter.Turn.row` — what a step makes of the first row.
* `QueryFilter.Filter.IsPage` — the pages of a filter, told by the row that they start at.

## Main results

* `QueryFilter.Filter.isPage_turn` — one step.
* `QueryFilter.Filter.isPage_foldl_turn` — any run of steps.
* `QueryFilter.Turn.foldl_row_replicate_next`, `QueryFilter.Turn.foldl_row_replicate_previous` — the
  row after many steps in one direction.
-/

namespace QueryFilter

/-- A step to one of the two neighbouring pages. -/
inductive Turn where
  | next
  | previous
  deriving DecidableEq, Repr

namespace Turn

/-- The first row after a step from a page with so many rows: it is a page further on, though not
beyond the greatest integer, or a page further up, though not before the first row of all. -/
def row (rows first : Int) : Turn → Int
  | next => min (first + rows) Int64.maxValue.toInt
  | previous => max 1 (first - rows)

/-- No step leads before the first row of all. -/
theorem one_le_row {rows first : Int} (hrows : 1 ≤ rows) (hfirst : 1 ≤ first) (turn : Turn) :
    1 ≤ turn.row rows first := by
  have hmax : Int64.maxValue.toInt = 9223372036854775807 := by decide
  cases turn with
  | next =>
    rw [row]
    omega
  | previous =>
    rw [row]
    omega

/-- Many steps to the next page are one step over that many pages. -/
theorem foldl_row_replicate_next {rows first : Int} (hrows : 1 ≤ rows)
    (hfirst : first ≤ Int64.maxValue.toInt) (n : Nat) :
    (List.replicate n next).foldl (row rows) first
      = min (first + n * rows) Int64.maxValue.toInt := by
  induction n generalizing first with
  | zero =>
    rw [List.replicate_zero, List.foldl_nil]
    omega
  | succ n ih =>
    have hpages : 0 ≤ n * rows := Int.mul_nonneg (by omega) (by omega)
    rw [List.replicate_succ, List.foldl_cons, row, ih (by omega), Int.natCast_succ, Int.add_mul,
      Int.one_mul]
    omega

/-- Many steps to the page before are one step over that many pages. -/
theorem foldl_row_replicate_previous {rows first : Int} (hrows : 1 ≤ rows) (hfirst : 1 ≤ first)
    (n : Nat) :
    (List.replicate n previous).foldl (row rows) first = max 1 (first - n * rows) := by
  induction n generalizing first with
  | zero =>
    rw [List.replicate_zero, List.foldl_nil]
    omega
  | succ n ih =>
    have hpages : 0 ≤ n * rows := Int.mul_nonneg (by omega) (by omega)
    rw [List.replicate_succ, List.foldl_cons, row, ih (by omega), Int.natCast_succ, Int.add_mul,
      Int.one_mul]
    omega

end Turn

namespace Filter

variable {settings : Settings}

/-- The filter after a step. -/
def turn (settings : Settings) (filter : Filter) : Turn → Filter
  | .next => filter.next settings
  | .previous => filter.previous settings

/-- The page of a filter that starts at a given row: the row is set and nothing else, and it is what is
found for `first`. -/
def IsPage (filter : Filter) (settings : Settings) (page : Filter) (row : Int) : Prop :=
  ∃ start : Int64, start.toInt = row ∧ page = filter.setValue Keyword.first (.number start) ∧
    page.getWith? settings Keyword.first = some (.number start)

/-- A page is told by the row that it starts at. -/
theorem IsPage.eq_setValue {filter page : Filter} {row : Int} (h : filter.IsPage settings page row)
    {start : Int64} (hstart : start.toInt = row) :
    page = filter.setValue Keyword.first (.number start) := by
  obtain ⟨found, hfound, hpage, -⟩ := h
  rw [hpage, Int64.toInt_inj.1 (hfound.trans hstart.symm)]

/-! ## Steps -/

/-- **One step** goes to the page that starts at the row that the step makes of the present one. -/
theorem isPage_turn (h : settings.IsValid) (hfirst : settings.isNumeric Keyword.first = true)
    (filter : Filter) (turn : Turn) :
    filter.IsPage settings (filter.turn settings turn)
      (turn.row (filter.effectiveRows settings).toInt (filter.effectiveFirst settings).toInt) := by
  cases turn with
  | next =>
    obtain ⟨start, hstart, hnext⟩ := exists_next_eq h filter
    refine ⟨start, hstart, hnext, ?_⟩
    rw [turn, hnext, getWith?_setValue_number (by decide) hfirst]
  | previous =>
    obtain ⟨start, hstart, hprevious⟩ := exists_previous_eq h filter
    refine ⟨start, hstart, hprevious, ?_⟩
    rw [turn, hprevious, getWith?_setValue_number (by decide) hfirst]

/-! ## Runs -/

/-- A page of a filter whose first row was set is a page of the filter as it was. -/
theorem IsPage.of_setValue {filter page : Filter} {value : KeywordValue} {row : Int}
    (h : (filter.setValue Keyword.first value).IsPage settings page row) :
    filter.IsPage settings page row := by
  obtain ⟨start, hstart, hpage, hread⟩ := h
  refine ⟨start, hstart, ?_, hread⟩
  rw [hpage]
  exact set_set filter Keyword.first value (.number start) .equal .equal

/-- **A run of steps**, at least one and each in either direction, goes to the page that starts at the
row that the steps make of the present one, one after the other.

**Proof sketch.** Induction on the steps after the first one. The first step leaves a page that starts
at the row that it has set and has as many rows as before, so the rest of the run goes on from that
row; and what the run sets in the end overwrites what the first step has set. -/
theorem isPage_foldl_turn (h : settings.IsValid)
    (hfirst : settings.isNumeric Keyword.first = true) (filter : Filter) (turn : Turn)
    (turns : List Turn) :
    filter.IsPage settings ((turn :: turns).foldl (Filter.turn settings) filter)
      ((turn :: turns).foldl (Turn.row (filter.effectiveRows settings).toInt)
        (filter.effectiveFirst settings).toInt) := by
  induction turns generalizing filter turn with
  | nil => exact isPage_turn h hfirst filter turn
  | cons turn' turns ih =>
    obtain ⟨start, hstart, hpage, -⟩ := isPage_turn h hfirst filter turn
    have hpositive : 1 ≤ start.toInt := by
      rw [hstart]
      exact Turn.one_le_row (one_le_toInt_effectiveRows h filter)
        (one_le_toInt_effectiveFirst h filter) turn
    have hrest := ih (filter.turn settings turn) turn'
    rw [hpage, effectiveRows_setValue_first, effectiveFirst_setValue_first hfirst filter hpositive,
      hstart] at hrest
    rw [List.foldl_cons, List.foldl_cons, hpage]
    exact hrest.of_setValue

/-- A run of equal steps is one step done again and again. -/
theorem foldl_turn_replicate (filter : Filter) (settings : Settings) (turn : Turn) (n : Nat) :
    (List.replicate n turn).foldl (Filter.turn settings) filter
      = (Filter.turn settings · turn)^[n] filter := by
  induction n generalizing filter with
  | zero => rfl
  | succ n ih => rw [List.replicate_succ, List.foldl_cons, ih, Function.iterate_succ_apply]

/-- The page that any number of equal steps but none goes to. -/
theorem isPage_iterate_turn (h : settings.IsValid)
    (hfirst : settings.isNumeric Keyword.first = true) (filter : Filter) (turn : Turn) {n : Nat}
    (hn : 1 ≤ n) :
    filter.IsPage settings ((Filter.turn settings · turn)^[n] filter)
      ((List.replicate n turn).foldl (Turn.row (filter.effectiveRows settings).toInt)
        (filter.effectiveFirst settings).toInt) := by
  obtain ⟨m, rfl⟩ : ∃ m, n = m + 1 := ⟨n - 1, by omega⟩
  rw [← foldl_turn_replicate, List.replicate_succ]
  exact isPage_foldl_turn h hfirst filter turn (List.replicate m turn)

end Filter

end QueryFilter
