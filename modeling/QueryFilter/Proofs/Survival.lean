import QueryFilter.Filter.Equivalence
import QueryFilter.Proofs.Editing

set_option relaxedAutoImplicit false
set_option autoImplicit false

/-!
# What survives a run of edits

A filter is edited in place, in one list that holds bare terms and terms with a keyword. This file
follows every term through a run of edits. An edit is taken apart into changes of four kinds; a
change writes one term or takes terms out, and all others go on with the place that they had when
the run began.

## Main definitions

* `QueryFilter.Change`, `QueryFilter.Edit.changes` — the changes that an edit is made of.
* `QueryFilter.Entry` — a term with the place that it had when the run began.
* `QueryFilter.Change.track`, `QueryFilter.Filter.trackAll` — the entries after a change and after a
  run of edits.
* `QueryFilter.Edit.concerns` — the terms that an edit is about.

## Main results

* `QueryFilter.Filter.terms_apply` — an edit does what its changes do.
* `QueryFilter.Change.filter_isKept_track` — a change leaves surviving terms in their order.
* `QueryFilter.Change.filter_track` — a change leaves alone the terms that it is not about.
* `QueryFilter.Filter.filter_terms_apply`, `QueryFilter.Filter.bareTerms_apply` — an edit leaves alone the
  terms that it is not about, and so all bare ones.
* `QueryFilter.Filter.applyAll_survivors` — what survives a run of edits, and in which order.
-/

namespace QueryFilter

/-! ## Changes -/

/-- The changes of a list of terms that edits are made of. -/
inductive Change where
  /-- Replaces what the first term with a keyword says, or puts a new term for it at the end. -/
  | write (keyword : String) (relation : Relation) (value : String) (new : Term)
    (hnew : new.keyword = some keyword)
  /-- Takes out the first term with a keyword. -/
  | erase (keyword : String)
  /-- Puts a sort term in the place of the first one and takes out the others, or puts it at the
  end. -/
  | sort (order : SortOrder) (value : String)
  /-- Takes out all terms of paging and sorting. -/
  | dropPaging

namespace Change

/-- The terms after a change. -/
def run (terms : List Term) : Change → List Term
  | .write keyword relation value new _ => Term.upsert keyword (·.replace relation value) new terms
  | .erase keyword => terms.eraseP (·.hasKeyword keyword)
  | .sort order value => Term.writeSort (.keyed order.keyword .equal value) terms
  | .dropPaging => terms.filter (!·.isPaging)

/-- Whether a change is about a term: it may write or take out terms of this kind only. -/
def concerns (term : Term) : Change → Bool
  | .write keyword _ _ _ _ | .erase keyword => term.hasKeyword keyword
  | .sort _ _ => term.isSort
  | .dropPaging => term.isPaging

end Change

namespace Edit

/-- The changes by which a keyword is set; none for an invalid keyword. -/
def setChanges (keyword : String) (value : KeywordValue) (relation : Relation) : List Change :=
  if h : Keyword.isValid keyword = true then
    [.write keyword relation value.stored (.keyed keyword relation value.stored)
      (Term.hasKeyword_iff.1 (Term.hasKeyword_keyed (Keyword.ne_empty_of_isValid h) _ _))]
  else
    []

/-- The changes by which a term of another filter is taken over; none for a bare term. -/
def mergeChanges (source : Term) : List Change :=
  match h : source.keyword with
  | none => []
  | some keyword => [.write keyword (source.relation.getD .equal) source.value source h]

/-- The changes that an edit of a filter is made of, in their order. -/
def changes (filter : Filter) : Edit → List Change
  | .set keyword value relation => setChanges keyword value relation
  | .delete keyword => [.erase keyword]
  | .setSortBy field => [.sort (filter.sortOrder?.getD .ascending) (quoteValue field)]
  | .setSortOrder order =>
    (filter.sortBy?.map fun field => .sort order (quoteValue field)).toList
  | .mergeKeywords other => other.terms.flatMap mergeChanges
  | .next settings =>
    setChanges Keyword.first
      (.number (Saturating.add (filter.effectiveFirst settings) (filter.effectiveRows settings)))
      .equal
  | .previous settings =>
    let start := Saturating.sub (filter.effectiveFirst settings) (filter.effectiveRows settings)
    setChanges Keyword.first (.number (if start.toInt < 1 then 1 else start)) .equal
  | .firstPage => setChanges Keyword.first (.number 1) .equal
  | .allRows =>
    setChanges Keyword.first (.number 1) .equal
      ++ setChanges Keyword.rows (.number Filter.everyRow) .equal
  | .simple => [.dropPaging]

/-- Whether an edit is about a term. Nothing is about a bare one. -/
def concerns (term : Term) : Edit → Bool
  | .set keyword _ _ | .delete keyword => term.hasKeyword keyword
  | .setSortBy _ | .setSortOrder _ => term.isSort
  | .mergeKeywords other => other.terms.any fun source => source.keyword.any term.hasKeyword
  | .next _ | .previous _ | .firstPage => term.hasKeyword Keyword.first
  | .allRows => term.hasKeyword Keyword.first || term.hasKeyword Keyword.rows
  | .simple => term.isPaging

end Edit

namespace Filter

/-- The terms after a keyword is set are those after its changes. -/
theorem terms_set_eq_foldl (filter : Filter) (keyword : String) (value : KeywordValue)
    (relation : Relation) :
    (filter.set keyword value relation).terms
      = (Edit.setChanges keyword value relation).foldl Change.run filter.terms := by
  unfold set Edit.setChanges
  split
  · rfl
  · rfl

/-- A term is taken over by its changes. -/
theorem mergeTerm_eq_foldl (terms : List Term) (source : Term) :
    mergeTerm terms source = (Edit.mergeChanges source).foldl Change.run terms := by
  unfold mergeTerm Edit.mergeChanges
  split
  · next hnone =>
    split
    · rfl
    · next hsome => simp [hsome] at hnone
  · next keyword hkeyword =>
    split
    · next hnone => simp [hnone] at hkeyword
    · next hsome =>
      rw [hkeyword, Option.some.injEq] at hsome
      subst hsome
      rfl

/-- **An edit does what its changes do**, one after the other. -/
theorem terms_apply (filter : Filter) (edit : Edit) :
    (filter.apply edit).terms = (edit.changes filter).foldl Change.run filter.terms := by
  cases edit with
  | set keyword value relation => exact terms_set_eq_foldl filter keyword value relation
  | delete keyword => rfl
  | setSortBy field => rfl
  | setSortOrder order =>
    rw [apply, setSortOrder, Edit.changes]
    cases filter.sortBy? with
    | none => rfl
    | some field => rfl
  | mergeKeywords other =>
    rw [Edit.changes, List.foldl_flatMap]
    show other.terms.foldl mergeTerm filter.terms = _
    congr 1
    funext terms source
    exact mergeTerm_eq_foldl terms source
  | next settings => exact terms_set_eq_foldl filter _ _ _
  | previous settings => exact terms_set_eq_foldl filter _ _ _
  | firstPage => exact terms_set_eq_foldl filter _ _ _
  | allRows =>
    rw [Edit.changes, List.foldl_append, ← terms_set_eq_foldl]
    exact terms_set_eq_foldl filter.firstPage _ _ _
  | simple => exact congrArg Filter.terms filter.simple_eq

end Filter

/-! ## Entries -/

/-- A term with the place that it had when a run of edits began; none once a change has written it.
-/
structure Entry where
  term : Term
  place : Option Nat
  deriving DecidableEq

namespace Entry

/-- The entries when a run begins: every term has its own place. -/
def ofTerms (terms : List Term) : List Entry :=
  terms.mapIdx fun place term => ⟨term, some place⟩

/-- The entry of a term that a change writes. -/
def written (term : Term) : Entry :=
  ⟨term, none⟩

/-- Whether a term stands there as it did when the run began. -/
def isKept (entry : Entry) : Bool :=
  entry.place.isSome

/-- Writes over the first term with a keyword, or writes a new term at the end. -/
def upsert (keyword : String) (change : Term → Term) (new : Term) : List Entry → List Entry
  | [] => [written new]
  | entry :: entries =>
    if entry.term.hasKeyword keyword then written (change entry.term) :: entries
    else entry :: upsert keyword change new entries

/-- Writes a sort term over the first one and takes out the others, or writes it at the end. -/
def writeSort (new : Term) : List Entry → List Entry
  | [] => [written new]
  | entry :: entries =>
    if entry.term.isSort then written new :: entries.filter (!·.term.isSort)
    else entry :: writeSort new entries

/-- The terms of the entries are the terms. -/
theorem map_term_ofTerms (terms : List Term) : (ofTerms terms).map term = terms := by
  apply List.ext_getElem?
  intro i
  simp [ofTerms, Function.comp_def]

/-- What is written where a run begins is nothing. -/
theorem filter_isKept_ofTerms (terms : List Term) :
    (ofTerms terms).filter isKept = ofTerms terms := by
  rw [List.filter_eq_self]
  intro entry hentry
  obtain ⟨i, hi, rfl⟩ := List.mem_mapIdx.1 hentry
  rfl

section Upsert

variable {keyword : String} {change : Term → Term} {new : Term}

theorem map_term_upsert (entries : List Entry) :
    (upsert keyword change new entries).map term
      = Term.upsert keyword change new (entries.map term) := by
  induction entries with
  | nil => rfl
  | cons entry entries ih =>
    rw [upsert, List.map_cons, Term.upsert]
    split
    · rfl
    · rw [List.map_cons, ih]

/-- What survives a change for a keyword stood there before, in the same order. -/
theorem filter_isKept_upsert (entries : List Entry) :
    ((upsert keyword change new entries).filter isKept).Sublist (entries.filter isKept) := by
  induction entries with
  | nil => exact List.Sublist.refl _
  | cons entry entries ih =>
    rw [upsert]
    split
    · exact (List.sublist_cons_self entry entries).filter isKept
    · rw [List.filter_cons, List.filter_cons]
      split
      · exact ih.cons_cons entry
      · exact ih

/-- A change for a keyword leaves alone what a test selects among the other terms. -/
theorem filter_upsert {test : Term → Bool} (hnew : test new = false)
    (hold : ∀ term, term.hasKeyword keyword = true → test term = false)
    (hchange : ∀ term, term.hasKeyword keyword = true → test (change term) = false)
    (entries : List Entry) :
    (upsert keyword change new entries).filter (fun entry => test entry.term)
      = entries.filter fun entry => test entry.term := by
  induction entries with
  | nil => simp [upsert, written, hnew]
  | cons entry entries ih =>
    rw [upsert]
    split
    · next h => simp [written, hold entry.term h, hchange entry.term h]
    · rw [List.filter_cons, List.filter_cons, ih]

end Upsert

theorem map_term_writeSort (new : Term) (entries : List Entry) :
    (writeSort new entries).map term = Term.writeSort new (entries.map term) := by
  induction entries with
  | nil => rfl
  | cons entry entries ih =>
    rw [writeSort, List.map_cons, Term.writeSort]
    split
    · rw [List.map_cons, List.filter_map]
      rfl
    · rw [List.map_cons, ih]

/-- What survives the writing of a sort term stood there before, in the same order. -/
theorem filter_isKept_writeSort (new : Term) (entries : List Entry) :
    ((writeSort new entries).filter isKept).Sublist (entries.filter isKept) := by
  induction entries with
  | nil => exact List.Sublist.refl _
  | cons entry entries ih =>
    rw [writeSort]
    split
    · exact (List.filter_sublist.trans (List.sublist_cons_self entry entries)).filter isKept
    · rw [List.filter_cons, List.filter_cons]
      split
      · exact ih.cons_cons entry
      · exact ih

/-- Writing a sort term leaves alone what a test selects among the other terms. -/
theorem filter_writeSort {new : Term} {test : Term → Bool} (hnew : test new = false)
    (hsort : ∀ term, term.isSort = true → test term = false) (entries : List Entry) :
    (writeSort new entries).filter (fun entry => test entry.term)
      = entries.filter fun entry => test entry.term := by
  induction entries with
  | nil => simp [writeSort, written, hnew]
  | cons entry entries ih =>
    rw [writeSort]
    split
    · next h =>
      rw [List.filter_cons_of_neg (by simp [written, hnew]),
        List.filter_cons_of_neg (by simp [hsort entry.term h]), List.filter_filter]
      apply List.filter_congr
      intro other _
      cases hother : other.term.isSort with
      | true => simp [hsort other.term hother]
      | false => simp
    · rw [List.filter_cons, List.filter_cons, ih]

end Entry

namespace Change

/-- The entries after a change. -/
def track (entries : List Entry) : Change → List Entry
  | .write keyword relation value new _ => Entry.upsert keyword (·.replace relation value) new entries
  | .erase keyword => entries.eraseP (·.term.hasKeyword keyword)
  | .sort order value => Entry.writeSort (.keyed order.keyword .equal value) entries
  | .dropPaging => entries.filter (!·.term.isPaging)

/-- The terms of the entries after a change are the terms after the change. -/
theorem map_term_track (entries : List Entry) (change : Change) :
    (change.track entries).map Entry.term = change.run (entries.map Entry.term) := by
  cases change with
  | write keyword relation value new hnew => exact Entry.map_term_upsert entries
  | erase keyword =>
    rw [track, run, List.eraseP_map]
    rfl
  | sort order value => exact Entry.map_term_writeSort _ entries
  | dropPaging =>
    rw [track, run, List.filter_map]
    rfl

/-- **What survives a change stood there before, in the same order.** -/
theorem filter_isKept_track (entries : List Entry) (change : Change) :
    ((change.track entries).filter Entry.isKept).Sublist (entries.filter Entry.isKept) := by
  cases change with
  | write keyword relation value new hnew => exact Entry.filter_isKept_upsert entries
  | erase keyword => exact List.eraseP_sublist.filter Entry.isKept
  | sort order value => exact Entry.filter_isKept_writeSort _ entries
  | dropPaging => exact List.filter_sublist.filter Entry.isKept

/-- **A change leaves alone the terms that it is not about**: they stay where they are. -/
theorem filter_track {change : Change} {test : Term → Bool}
    (h : ∀ term, change.concerns term = true → test term = false) (entries : List Entry) :
    (change.track entries).filter (fun entry => test entry.term)
      = entries.filter fun entry => test entry.term := by
  cases change with
  | write keyword relation value new hnew =>
    refine Entry.filter_upsert ?_ ?_ ?_ entries
    · exact h new (Term.hasKeyword_iff.2 hnew)
    · intro term hterm
      exact h term hterm
    · intro term hterm
      exact h (term.replace relation value) hterm
  | erase keyword =>
    rw [track]
    induction entries with
    | nil => rfl
    | cons entry entries ih =>
      rw [List.eraseP_cons]
      cases hentry : entry.term.hasKeyword keyword with
      | true => simp [h entry.term hentry]
      | false => simp [List.filter_cons, ih]
  | sort order value =>
    exact Entry.filter_writeSort (h _ (Term.isSort_keyed order .equal value)) h entries
  | dropPaging =>
    rw [track, List.filter_filter]
    apply List.filter_congr
    intro entry _
    cases hentry : entry.term.isPaging with
    | true => simp [h entry.term hentry]
    | false => simp

end Change

namespace Edit

/-- An edit is about a term when one of its changes is. -/
theorem concerns_of_mem_changes {filter : Filter} {edit : Edit} {change : Change}
    (hmem : change ∈ edit.changes filter) {term : Term} (h : change.concerns term = true) :
    edit.concerns term = true := by
  have hset {keyword : String} {value : KeywordValue} {relation : Relation}
      (hmem : change ∈ setChanges keyword value relation) : term.hasKeyword keyword = true := by
    unfold setChanges at hmem
    split at hmem
    · rw [List.mem_singleton.1 hmem] at h
      exact h
    · contradiction
  cases edit with
  | set keyword value relation => exact hset hmem
  | delete keyword =>
    rw [List.mem_singleton.1 hmem] at h
    exact h
  | setSortBy field =>
    rw [List.mem_singleton.1 hmem] at h
    exact h
  | setSortOrder order =>
    obtain ⟨field, -, rfl⟩ := Option.map_eq_some_iff.1 (Option.mem_toList.1 hmem)
    exact h
  | mergeKeywords other =>
    obtain ⟨source, hsource, hchange⟩ := List.mem_flatMap.1 hmem
    refine List.any_eq_true.2 ⟨source, hsource, ?_⟩
    unfold mergeChanges at hchange
    split at hchange
    · contradiction
    · next keyword hkeyword =>
      rw [List.mem_singleton.1 hchange] at h
      rw [hkeyword]
      exact h
  | next settings => exact hset hmem
  | previous settings => exact hset hmem
  | firstPage => exact hset hmem
  | allRows =>
    rw [concerns, Bool.or_eq_true]
    exact (List.mem_append.1 hmem).imp hset hset
  | simple =>
    rw [List.mem_singleton.1 hmem] at h
    exact h

/-- No edit is about a bare term. -/
theorem isBare_eq_false_of_concerns {edit : Edit} {term : Term} (h : edit.concerns term = true) :
    term.isBare = false := by
  have hkeyed {keyword : String} (h : term.hasKeyword keyword = true) : term.isBare = false :=
    Term.isBare_eq_false_of_hasKeyword h
  cases edit with
  | set keyword value relation => exact hkeyed h
  | delete keyword => exact hkeyed h
  | setSortBy field => exact Term.isBare_eq_false_of_isSort h
  | setSortOrder order => exact Term.isBare_eq_false_of_isSort h
  | mergeKeywords other =>
    obtain ⟨source, -, hsource⟩ := List.any_eq_true.1 h
    obtain ⟨keyword, -, hkeyword⟩ := (Option.any_eq_true _ _).1 hsource
    exact hkeyed hkeyword
  | next settings => exact hkeyed h
  | previous settings => exact hkeyed h
  | firstPage => exact hkeyed h
  | allRows => exact (Bool.or_eq_true_iff.1 h).elim hkeyed hkeyed
  | simple =>
    obtain ⟨keyword, hkeyword, -⟩ := (Option.any_eq_true _ _).1 h
    exact hkeyed (Term.hasKeyword_iff.2 hkeyword)

/-- The entries after an edit of a filter. -/
def track (filter : Filter) (entries : List Entry) (edit : Edit) : List Entry :=
  (edit.changes filter).foldl Change.track entries

/-- The terms of the entries after an edit are the terms after the edit. -/
theorem map_term_track (filter : Filter) {entries : List Entry}
    (h : entries.map Entry.term = filter.terms) (edit : Edit) :
    (edit.track filter entries).map Entry.term = (filter.apply edit).terms := by
  rw [Filter.terms_apply, ← h, track]
  exact (List.foldl_hom (List.map Entry.term) fun entries change =>
    (Change.map_term_track entries change).symm).symm

/-- What survives an edit stood there before, in the same order. -/
theorem filter_isKept_track (filter : Filter) (entries : List Entry) (edit : Edit) :
    ((edit.track filter entries).filter Entry.isKept).Sublist (entries.filter Entry.isKept) := by
  unfold track
  induction edit.changes filter generalizing entries with
  | nil => exact List.Sublist.refl _
  | cons change changes ih => exact (ih _).trans (Change.filter_isKept_track entries change)

/-- An edit leaves alone the terms that it is not about: they stay where they are. -/
theorem filter_track {edit : Edit} {test : Term → Bool}
    (h : ∀ term, edit.concerns term = true → test term = false) (filter : Filter)
    (entries : List Entry) :
    (edit.track filter entries).filter (fun entry => test entry.term)
      = entries.filter fun entry => test entry.term := by
  have hchanges : ∀ change ∈ edit.changes filter, ∀ term, change.concerns term = true →
      test term = false := by
    intro change hchange term hterm
    exact h term (concerns_of_mem_changes hchange hterm)
  unfold track
  revert hchanges
  induction edit.changes filter generalizing entries with
  | nil =>
    intro _
    rfl
  | cons change changes ih =>
    intro hchanges
    rw [List.forall_mem_cons] at hchanges
    rw [List.foldl_cons, ih _ hchanges.2, Change.filter_track hchanges.1]

end Edit

namespace Filter

/-! ## Terms that an edit is not about -/

/-- **An edit leaves alone what a test selects** among the terms that it is not about. -/
theorem filter_terms_apply {edit : Edit} {test : Term → Bool}
    (h : ∀ term, edit.concerns term = true → test term = false) (filter : Filter) :
    (filter.apply edit).terms.filter test = filter.terms.filter test := by
  have hstart := Entry.map_term_ofTerms filter.terms
  calc (filter.apply edit).terms.filter test
      = ((edit.track filter (Entry.ofTerms filter.terms)).filter fun entry =>
          test entry.term).map Entry.term := by
        rw [← Edit.map_term_track filter hstart edit, List.filter_map]
        rfl
    _ = ((Entry.ofTerms filter.terms).filter fun entry => test entry.term).map Entry.term := by
        rw [Edit.filter_track h filter]
    _ = ((Entry.ofTerms filter.terms).map Entry.term).filter test := List.filter_map.symm
    _ = filter.terms.filter test := by rw [hstart]

/-- **An edit leaves the bare terms alone.** -/
theorem bareTerms_apply (filter : Filter) (edit : Edit) :
    (filter.apply edit).bareTerms = filter.bareTerms :=
  filter_terms_apply (fun _ => Edit.isBare_eq_false_of_concerns) filter

/-- Setting a keyword leaves the bare terms alone. -/
theorem bareTerms_set (filter : Filter) (keyword : String) (value : KeywordValue)
    (relation : Relation) : (filter.set keyword value relation).bareTerms = filter.bareTerms :=
  bareTerms_apply filter (.set keyword value relation)

/-! ## Runs of edits -/

/-- The entries after a run of edits. -/
def trackAll (filter : Filter) (entries : List Entry) : List Edit → List Entry
  | [] => entries
  | edit :: edits => (filter.apply edit).trackAll (edit.track filter entries) edits

/-- The terms of the entries after a run are the terms after the run. -/
theorem map_term_trackAll {filter : Filter} {entries : List Entry}
    (h : entries.map Entry.term = filter.terms) (edits : List Edit) :
    (filter.trackAll entries edits).map Entry.term = (filter.applyAll edits).terms := by
  induction edits generalizing filter entries with
  | nil => exact h
  | cons edit edits ih => exact ih (Edit.map_term_track filter h edit)

/-- What survives a run stood there before, in the same order. -/
theorem filter_isKept_trackAll (filter : Filter) (entries : List Entry) (edits : List Edit) :
    ((filter.trackAll entries edits).filter Entry.isKept).Sublist
      (entries.filter Entry.isKept) := by
  induction edits generalizing filter entries with
  | nil => exact List.Sublist.refl _
  | cons edit edits ih => exact (ih _ _).trans (Edit.filter_isKept_track filter entries edit)

/-- A run leaves alone the terms that none of its edits is about: they stay where they are. -/
theorem filter_trackAll {edits : List Edit} {test : Term → Bool}
    (h : ∀ edit ∈ edits, ∀ term, edit.concerns term = true → test term = false) (filter : Filter)
    (entries : List Entry) :
    (filter.trackAll entries edits).filter (fun entry => test entry.term)
      = entries.filter fun entry => test entry.term := by
  induction edits generalizing filter entries with
  | nil => rfl
  | cons edit edits ih =>
    rw [List.forall_mem_cons] at h
    rw [trackAll, ih h.2, Edit.filter_track h.1]

/-- Bare terms stay as they are in a run of edits. -/
theorem bareTerms_applyAll (filter : Filter) (edits : List Edit) :
    (filter.applyAll edits).bareTerms = filter.bareTerms := by
  induction edits generalizing filter with
  | nil => rfl
  | cons edit edits ih => exact (ih _).trans (bareTerms_apply filter edit)

/-- An edit leaves the identity of a saved filter alone. -/
theorem identity_apply (filter : Filter) (edit : Edit) :
    (filter.apply edit).id = filter.id ∧ (filter.apply edit).kind = filter.kind ∧
      (filter.apply edit).name = filter.name := by
  have hset (filter : Filter) (keyword : String) (value : KeywordValue) (relation : Relation) :
      (filter.set keyword value relation).id = filter.id ∧
        (filter.set keyword value relation).kind = filter.kind ∧
        (filter.set keyword value relation).name = filter.name := by
    unfold set
    split
    · exact ⟨rfl, rfl, rfl⟩
    · exact ⟨rfl, rfl, rfl⟩
  cases edit with
  | set keyword value relation => exact hset filter keyword value relation
  | setSortOrder order =>
    rw [apply]
    cases hfield : filter.sortBy? with
    | none =>
      rw [setSortOrder_of_none hfield]
      exact ⟨rfl, rfl, rfl⟩
    | some field =>
      rw [setSortOrder_of_some hfield]
      exact ⟨rfl, rfl, rfl⟩
  | delete _ | setSortBy _ | mergeKeywords _ | simple => exact ⟨rfl, rfl, rfl⟩
  | next _ | previous _ | firstPage => exact hset filter _ _ _
  | allRows =>
    obtain ⟨hid, hkind, hname⟩ := hset filter.firstPage Keyword.rows (.number everyRow) .equal
    obtain ⟨hid', hkind', hname'⟩ := hset filter Keyword.first (.number 1) .equal
    exact ⟨hid.trans hid', hkind.trans hkind', hname.trans hname'⟩

/-- A run of edits leaves the identity of a saved filter alone. -/
theorem identity_applyAll (filter : Filter) (edits : List Edit) :
    (filter.applyAll edits).id = filter.id ∧ (filter.applyAll edits).kind = filter.kind ∧
      (filter.applyAll edits).name = filter.name := by
  induction edits generalizing filter with
  | nil => exact ⟨rfl, rfl, rfl⟩
  | cons edit edits ih =>
    obtain ⟨hid, hkind, hname⟩ := identity_apply filter edit
    obtain ⟨hid', hkind', hname'⟩ := ih (filter.apply edit)
    exact ⟨hid'.trans hid, hkind'.trans hkind, hname'.trans hname⟩

/-- **What survives a run of edits.** Every term is followed from its place at the start: the
entries are the terms after the run, each with the place that it had, unless an edit has written it.
The terms that have a place, and so were neither written nor taken out, stand in the order of their
places; all terms that no edit of the run is about are among them, and all bare terms. So the bare
terms are the same list as at the start, and the identity of the filter is the same too. -/
theorem applyAll_survivors (filter : Filter) (edits : List Edit) :
    let start := Entry.ofTerms filter.terms
    let entries := filter.trackAll start edits
    let spared (term : Term) : Bool := !edits.any (·.concerns term)
    entries.map Entry.term = (filter.applyAll edits).terms ∧
      (entries.filter Entry.isKept).Sublist start ∧
      entries.filter (fun entry => spared entry.term) = start.filter (fun entry => spared entry.term) ∧
      entries.filter (·.term.isBare) = start.filter (·.term.isBare) ∧
      (filter.applyAll edits).bareTerms = filter.bareTerms ∧
      (filter.applyAll edits).id = filter.id ∧ (filter.applyAll edits).kind = filter.kind ∧
      (filter.applyAll edits).name = filter.name := by
  intro start entries spared
  refine ⟨map_term_trackAll (Entry.map_term_ofTerms filter.terms) edits, ?_, ?_, ?_,
    bareTerms_applyAll filter edits, identity_applyAll filter edits⟩
  · have hkept := filter_isKept_trackAll filter start edits
    rwa [Entry.filter_isKept_ofTerms] at hkept
  · refine filter_trackAll ?_ filter start
    intro edit hedit term hterm
    rw [Bool.not_eq_false', List.any_eq_true]
    exact ⟨edit, hedit, hterm⟩
  · refine filter_trackAll ?_ filter start
    intro edit _ term hterm
    exact Edit.isBare_eq_false_of_concerns hterm

/-- Setting a keyword writes over its first term; a second one keeps its place, and so does the word
between them. -/
example :
    let filter := ofTerms [.keyed "a" .equal "1", .bare none "x", .keyed "a" .equal "2"]
    filter.trackAll (Entry.ofTerms filter.terms) [.set "a" (.number 3) .greater]
      = [⟨.keyed "a" .greater "3", none⟩, ⟨.bare none "x", some 1⟩,
          ⟨.keyed "a" .equal "2", some 2⟩] := by
  decide

end Filter

end QueryFilter
