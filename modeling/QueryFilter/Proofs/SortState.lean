import QueryFilter.Proofs.Editing

set_option relaxedAutoImplicit false
set_option autoImplicit false

/-!
# How a filter sorts, in the course of its edits

Only the first sort term of a filter counts, and its keyword says as much as its value. What can be seen
of it is a pair of a field and an order, or nothing. This file says what becomes of that pair when the
field or the order is set, without looking at terms, and that a filter follows it in every run. The first
edit that writes leaves a single sort term, however many there were before and with either keyword.

## Main definitions

* `QueryFilter.Sorting` — a field and an order.
* `QueryFilter.SortEdit` — the edits of how to sort.
* `QueryFilter.Sorting.step` — what an edit makes of a field and an order.
* `QueryFilter.Filter.ChangesSorting` — a filter that comes from another one by writing how to sort.

## Main results

* `QueryFilter.Filter.sorting?_apply`, `QueryFilter.Filter.sorting?_applyAll` — the field and the order
  after an edit and after a run of edits.
* `QueryFilter.Filter.changesSorting_apply` — the terms after an edit that writes.
* `QueryFilter.Filter.sorting_follows_steps` — both together.
-/

namespace QueryFilter

/-! ## Fields and orders -/

/-- A field to sort by, as it is stored, and the order to sort in. -/
structure Sorting where
  field : String
  order : SortOrder
  deriving DecidableEq, Repr

/-- An edit of how to sort. -/
inductive SortEdit where
  | field (name : String)
  | order (order : SortOrder)
  deriving DecidableEq, Repr

/-- The edit of a filter. -/
def SortEdit.toEdit : SortEdit → Edit
  | .field name => .setSortBy name
  | .order other => .setSortOrder other

/-- What an edit makes of a field and an order. A new field is sorted by in the present order, or in the
ascending one. A new order needs a present field, which is quoted if it has to be. -/
def Sorting.step (sorting? : Option Sorting) : SortEdit → Option Sorting
  | .field name => some ⟨quoteValue name, (sorting?.map order).getD .ascending⟩
  | .order order => sorting?.map fun sorting => ⟨quoteValue sorting.field, order⟩

/-- The term that says how to sort. -/
def Sorting.term (sorting : Sorting) : Term :=
  .keyed sorting.order.keyword .equal sorting.field

/-! ## Writing a sort term -/

namespace Term

variable {new : Term}

/-- A sort term that is written is the only one that is left. -/
theorem filter_isSort_writeSort (hnew : new.isSort = true) (terms : List Term) :
    (writeSort new terms).filter isSort = [new] := by
  have hperm := (writeSort_perm new terms).filter isSort
  have hone : (new :: terms.filter (!·.isSort)).filter isSort = [new] := by
    simp [hnew, List.filter_filter]
  rw [hone] at hperm
  exact List.perm_singleton.1 hperm

/-- A sort term is written in the place of the first one, or at the end. -/
theorem findIdx?_writeSort (hnew : new.isSort = true) (terms : List Term) :
    (writeSort new terms).findIdx? isSort
      = some ((terms.findIdx? isSort).getD terms.length) := by
  induction terms with
  | nil => simp [writeSort, hnew]
  | cons term terms ih =>
    rw [writeSort]
    cases hterm : term.isSort with
    | true => simp [List.findIdx?_cons, hnew, hterm]
    | false =>
      simp only [Bool.false_eq_true, if_false, List.findIdx?_cons, hterm, ih, Option.map_some]
      cases terms.findIdx? isSort with
      | none => rfl
      | some i => rfl

end Term

namespace Filter

/-- How a filter sorts, told by its first sort term. -/
def sorting? (filter : Filter) : Option Sorting :=
  filter.sortTerm?.map fun term => ⟨term.value, term.sortOrder⟩

/-- One filter comes from another by writing how to sort: a single term says so. It stands where the first
one stood that did, or at the end if there was none, and all other terms stand in their order. -/
structure ChangesSorting (before after : Filter) (sorting : Sorting) : Prop where
  only_sortTerm : after.terms.filter Term.isSort = [sorting.term]
  place : after.terms.findIdx? Term.isSort
    = some ((before.terms.findIdx? Term.isSort).getD before.terms.length)
  other_terms : after.terms.filter (!·.isSort) = before.terms.filter (!·.isSort)
  identity : after = { before with terms := after.terms }

/-- What is seen of how a filter sorts is its field and its order. -/
theorem sortBy?_eq (filter : Filter) : filter.sortBy? = filter.sorting?.map Sorting.field := by
  rw [sortBy?, sorting?, Option.map_map]
  rfl

theorem sortOrder?_eq (filter : Filter) : filter.sortOrder? = filter.sorting?.map Sorting.order := by
  rw [sortOrder?, sorting?, Option.map_map]
  rfl

/-! ## One edit -/

/-- Writing how to sort leaves one term that says so. -/
theorem changesSorting_writeSort (filter : Filter) (order : SortOrder) (field : String) :
    filter.ChangesSorting (filter.writeSort order field) ⟨quoteValue field, order⟩ := by
  have hnew := Term.isSort_keyed order .equal (quoteValue field)
  refine ⟨Term.filter_isSort_writeSort hnew filter.terms, Term.findIdx?_writeSort hnew filter.terms,
    Term.filter_writeSort ?_ ?_ filter.terms, rfl⟩
  · rw [hnew, Bool.not_true]
  · intro term hterm
    rw [hterm, Bool.not_true]

/-- A filter sorts as was written. -/
theorem ChangesSorting.sorting?_eq {before after : Filter} {sorting : Sorting}
    (h : before.ChangesSorting after sorting) : after.sorting? = some sorting := by
  rw [sorting?, sortTerm?, ← List.head?_filter, h.only_sortTerm, List.head?_cons, Option.map_some,
    Sorting.term, Term.sortOrder_keyed]
  rfl

/-- **An edit of how to sort writes**, unless it sets the order of a filter that does not sort, and then
it changes nothing. -/
theorem changesSorting_apply (filter : Filter) (edit : SortEdit) :
    (∀ sorting, Sorting.step filter.sorting? edit = some sorting →
      filter.ChangesSorting (filter.apply edit.toEdit) sorting) ∧
    (Sorting.step filter.sorting? edit = none → filter.apply edit.toEdit = filter) := by
  cases edit with
  | field name =>
    rw [Sorting.step, ← sortOrder?_eq]
    refine ⟨?_, ?_⟩
    · rintro sorting ⟨⟩
      exact changesSorting_writeSort filter _ name
    · intro hnone
      contradiction
  | order order =>
    cases hsorting : filter.sorting? with
    | none =>
      have hfield : filter.sortBy? = none := by rw [sortBy?_eq, hsorting, Option.map_none]
      refine ⟨?_, ?_⟩
      · intro sorting hsome
        contradiction
      · intro _
        exact setSortOrder_of_none hfield order
    | some present =>
      have hfield : filter.sortBy? = some present.field := by
        rw [sortBy?_eq, hsorting, Option.map_some]
      have happly : filter.apply (SortEdit.order order).toEdit
          = filter.writeSort order present.field := setSortOrder_of_some hfield order
      refine ⟨?_, ?_⟩
      · rintro sorting ⟨⟩
        rw [happly]
        exact changesSorting_writeSort filter order present.field
      · intro hnone
        contradiction

/-- What an edit makes of how a filter sorts can be told from the field and the order alone. -/
theorem sorting?_apply (filter : Filter) (edit : SortEdit) :
    (filter.apply edit.toEdit).sorting? = Sorting.step filter.sorting? edit := by
  obtain ⟨hwrites, hidle⟩ := changesSorting_apply filter edit
  cases hstep : Sorting.step filter.sorting? edit with
  | none =>
    rw [hidle hstep]
    -- only a filter that does not sort takes no step
    cases edit with
    | field name => contradiction
    | order order => exact Option.map_eq_none_iff.1 hstep
  | some sorting => exact (hwrites sorting hstep).sorting?_eq

/-! ## Runs of edits -/

/-- How a filter sorts after a run of edits can be told from how it sorted at the start. -/
theorem sorting?_applyAll (filter : Filter) (edits : List SortEdit) :
    (filter.applyAll (edits.map SortEdit.toEdit)).sorting?
      = edits.foldl Sorting.step filter.sorting? := by
  induction edits generalizing filter with
  | nil => rfl
  | cons edit edits ih =>
    rw [List.foldl_cons, ← sorting?_apply]
    exact ih (filter.apply edit.toEdit)

/-- **How a filter sorts follows the steps of its edits.** After any run of edits that set the field or
the order, the field and the order are those that the steps lead to from the first sort term at the start.
The next edit then does what its step says. Where the step leads to a field and an order, the edit leaves
a single sort term, which says so with equality; it stands where the first one stood, or at the end if
there was none, and all other terms stand in their order. Where it leads to none, nothing is changed. -/
theorem sorting_follows_steps (filter : Filter) (edits : List SortEdit) :
    let state := edits.foldl Sorting.step filter.sorting?
    let result := filter.applyAll (edits.map SortEdit.toEdit)
    result.sortBy? = state.map Sorting.field ∧
    result.sortOrder? = state.map Sorting.order ∧
    ∀ edit : SortEdit,
      (∀ sorting, Sorting.step state edit = some sorting →
        result.ChangesSorting (result.apply edit.toEdit) sorting) ∧
      (Sorting.step state edit = none → result.apply edit.toEdit = result) := by
  intro state result
  have hstate : result.sorting? = state := sorting?_applyAll filter edits
  refine ⟨?_, ?_, ?_⟩
  · rw [sortBy?_eq, hstate]
  · rw [sortOrder?_eq, hstate]
  · intro edit
    rw [← hstate]
    exact changesSorting_apply result edit

/-- A filter with sort terms of both keywords, and one that does not sort. -/
theorem sorting_follows_steps_two :
    let filter := ofString "x sort-reverse=host rows=5 sort=name"
    let edits : List SortEdit := [.order .ascending, .field "due date"]
    let result := filter.applyAll (edits.map SortEdit.toEdit)
    let sorting : Sorting := ⟨"\"due date\"", .descending⟩
    let unsorted := ofString "x rows=5"
    filter.sorting? = some ⟨"host", .descending⟩ ∧
      result.sortBy? = some "\"due date\"" ∧ result.sortOrder? = some .ascending ∧
      Sorting.step (edits.foldl Sorting.step filter.sorting?) (.order .descending) = some sorting ∧
      result.ChangesSorting (result.setSortOrder .descending) sorting ∧
      (result.setSortOrder .descending).terms
        = [.bare none "x", sorting.term, .keyed "rows" .equal "5"] ∧
      Sorting.step unsorted.sorting? (.order .descending) = none ∧
      unsorted.setSortOrder .descending = unsorted := by
  intro filter edits result sorting unsorted
  have hstart : filter.sorting? = some ⟨"host", .descending⟩ := by decide +kernel +zetaReduce
  have hstep : Sorting.step (edits.foldl Sorting.step filter.sorting?) (.order .descending)
      = some sorting := by decide +kernel +zetaReduce
  have hidle : Sorting.step unsorted.sorting? (.order .descending) = none := by
    decide +kernel +zetaReduce
  obtain ⟨hfield, horder, hnext⟩ := sorting_follows_steps filter edits
  obtain ⟨-, -, hunsorted⟩ := sorting_follows_steps unsorted []
  refine ⟨hstart, ?_, ?_, hstep, (hnext (.order .descending)).1 sorting hstep, ?_, hidle,
    (hunsorted (.order .descending)).2 hidle⟩
  · rw [show result.sortBy? = _ from hfield, hstart]
    rfl
  · rw [show result.sortOrder? = _ from horder, hstart]
    rfl
  · decide +kernel +zetaReduce

end Filter

end QueryFilter
