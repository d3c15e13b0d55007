import Mathlib.Data.List.Forall2
import Mathlib.Data.List.Pairwise
import QueryFilter.Filter.Basic
import QueryFilter.Proofs.JsonValues
import QueryFilter.SavedFilter

set_option relaxedAutoImplicit false
set_option autoImplicit false

/-!
# Every fault has its cause

The readers only say that a document cannot be read, and the diagnoses beside them say why. The two
are written apart, but they agree: a diagnosis finds something wrong with exactly those documents that
its reader does not read. So a text from which nothing can be decoded is either not JSON, or its
document has a first thing that is wrong with it.

## Main definitions

* `QueryFilter.Json.Diagnoses` — a diagnosis and a reader agree.

## Main results

* `QueryFilter.Json.diagnoses_value` — they do for values.
* `QueryFilter.Json.recordCause?_eq_none_iff` — the fields of a record with which nothing is wrong.
* `QueryFilter.SavedFilter.diagnoses`, `QueryFilter.Settings.diagnoses` — they do for saved filters and
  for settings.
* `QueryFilter.SavedFilter.ofJson_eq_error_iff` — the errors of decoding a saved filter.
-/

namespace QueryFilter

namespace Json

/-! ## Strings, numbers and values -/

/-- A diagnosis finds nothing wrong exactly with the documents that a reader reads. -/
def Diagnoses {α : Type} (cause? : Diagnosis) (read : Reader α) : Prop :=
  ∀ depth node, cause? depth node = none ↔ (read depth node).isSome = true

/-- Something is wrong with the escapes of a string exactly when it cannot be read. -/
theorem Quoted.cause?_eq_none_iff (quoted : Quoted) :
    quoted.cause? = none ↔ quoted.text?.isSome = true := by
  rw [text?, Option.isSome_map]
  fun_induction cause? quoted with
  | case1 => simp [decode?]
  | case2 c rest ih => simp [decode?, ih]
  | case3 high low rest hhigh hlow ih => simp [decode?, hhigh, hlow, ih]
  | case4 high low rest hhigh hlow => simp [decode?, hhigh, hlow]
  | case5 high low rest hhigh hlow => simp [decode?, hhigh, hlow]
  | case6 high low rest hhigh hlow ih => simp [decode?, hhigh, hlow, ih]
  | case7 code rest hnext hhigh => simp [decode?, hhigh]
  | case8 code rest hnext hhigh hlow => simp [decode?, hhigh, hlow]
  | case9 code rest hnext hhigh hlow ih => simp [decode?, hhigh, hlow, ih]

/-- Something is wrong with a number exactly when it cannot be read. -/
theorem numberCause?_eq_none_iff (literal : Literal) :
    numberCause? literal = none ↔ (Number.ofLiteral? literal).isSome = true := by
  rw [numberCause?]
  split <;> simp_all

/-- The first cause among those of items. -/
theorem itemsCause?_eq_findSome? (depth : Nat) (items : List Node) :
    itemsCause? depth items = items.findSome? (valueCause? depth) := by
  induction items with
  | nil => rfl
  | cons item items ih => rw [itemsCause?, ih, List.findSome?_cons]; cases valueCause? depth item <;> rfl

/-- The first thing wrong with a member: with its name, or else with what stands under it. -/
def memberCause? (depth : Nat) (member : Quoted × Node) : Option Cause :=
  member.1.cause?.or (valueCause? depth member.2)

/-- The first cause among those of members. -/
theorem membersCause?_eq_findSome? (depth : Nat) (members : List (Quoted × Node)) :
    membersCause? depth members = members.findSome? (memberCause? depth) := by
  induction members with
  | nil => rfl
  | cons member members ih =>
    rw [membersCause?, ih, List.findSome?_cons, memberCause?, ← Option.or_assoc]
    cases member.1.cause?.or (valueCause? depth member.2) <;> rfl

/-- A list is read member by member when each of its members is. -/
theorem isSome_mapM_iff {α β : Type} {read : α → Option β} {list : List α} :
    (list.mapM read).isSome = true ↔ ∀ member ∈ list, (read member).isSome = true := by
  simp only [Option.isSome_iff_exists, exists_mapM_eq_some_iff]

/-- **Values are read when nothing is wrong with them.** -/
theorem diagnoses_value : Diagnoses valueCause? value? := by
  intro depth node
  induction node generalizing depth with
  | null | bool _ => simp [valueCause?, value?]
  | number literal => rw [valueCause?, value?, Option.isSome_map, numberCause?_eq_none_iff]
  | string quoted => rw [valueCause?, value?, Option.isSome_map, Quoted.cause?_eq_none_iff]
  | array items ih =>
    cases depth with
    | zero => simp [valueCause?, value?]
    | succ depth =>
      rw [valueCause?, value?, Option.isSome_map, items?_eq_mapM, itemsCause?_eq_findSome?,
        List.findSome?_eq_none_iff, isSome_mapM_iff]
      exact forall₂_congr fun item hitem => ih item hitem depth
  | object members ih =>
    cases depth with
    | zero => simp [valueCause?, value?]
    | succ depth =>
      rw [valueCause?, value?, Option.isSome_map, members?_eq_mapM, membersCause?_eq_findSome?,
        List.findSome?_eq_none_iff, isSome_mapM_iff]
      refine forall₂_congr fun member hmember => ?_
      have hvalue := ih member hmember depth
      rw [memberCause?, Option.or_eq_none_iff, Quoted.cause?_eq_none_iff, hvalue, member?]
      cases member.1.text? with
      | none => simp
      | some name => cases value? depth member.2 <;> simp

/-- A document of another kind always has a cause. -/
theorem kindCause?_ne_none (expected : String) (node : Node) : kindCause? expected node ≠ none := by
  cases node with
  | null | bool _ | array _ | object _ => simp [kindCause?]
  | number literal =>
    rw [kindCause?]
    cases Number.ofLiteral? literal <;> simp
  | string quoted =>
    rw [kindCause?]
    cases htext : quoted.text? with
    | some text => simp
    | none =>
      intro hnone
      rw [Quoted.cause?_eq_none_iff, htext] at hnone
      contradiction

/-- A string is read when nothing is wrong with it. -/
theorem diagnoses_string : Diagnoses stringCause? string? := by
  intro depth node
  cases node with
  | string quoted => exact quoted.cause?_eq_none_iff
  | null | bool _ | number _ | array _ | object _ =>
    simp [stringCause?, string?, kindCause?_ne_none]

/-- An integer of 64 bits is read when nothing is wrong with it. -/
theorem diagnoses_int64 : Diagnoses int64Cause? int64? := by
  intro depth node
  cases node with
  | number literal =>
    rw [int64Cause?, int64?]
    rcases Number.ofLiteral? literal with _ | n | ⟨negative, magnitude⟩
    · simp [kindCause?_ne_none]
    · simp [Option.isSome_iff_ne_none]
    · simp [kindCause?_ne_none]
  | null | bool _ | string _ | array _ | object _ =>
    simp [int64Cause?, int64?, kindCause?_ne_none]

/-- An array of things is read when nothing is wrong with it. -/
theorem Diagnoses.list {α : Type} {cause? : Diagnosis} {read : Reader α}
    (h : Diagnoses cause? read) : Diagnoses (listCause? cause?) (list? read) := by
  intro depth node
  cases node with
  | array items =>
    cases depth with
    | zero => simp [listCause?, list?]
    | succ depth =>
      rw [listCause?, list?, List.findSome?_eq_none_iff, isSome_mapM_iff]
      exact forall₂_congr fun item _ => h depth item
  | null | bool _ | number _ | string _ | object _ =>
    cases depth <;> simp [listCause?, list?, kindCause?_ne_none]

/-- A field that may be missing is read when nothing is wrong with it. -/
theorem Diagnoses.optional {α : Type} {cause? : Diagnosis} {read : Reader α}
    (h : Diagnoses cause? read) (depth : Nat) (field : Option Node) :
    (∀ node ∈ field, optionalCause? cause? depth node = none)
      ↔ (optional? read depth field).isSome = true := by
  have hnode (node : Node) (hnull : node ≠ .null) :
      optionalCause? cause? depth node = cause? depth node ∧
        optional? read depth (some node) = (read depth node).map some := by
    cases node with
    | null => exact absurd rfl hnull
    | bool _ | number _ | string _ | array _ | object _ => exact ⟨rfl, rfl⟩
  cases field with
  | none => simp [optional?]
  | some node =>
    by_cases hnull : node = .null
    · simp [hnull, optionalCause?, optional?]
    · obtain ⟨hcause, hread⟩ := hnode node hnull
      simp [hcause, hread, h depth node]

/-- The same for a field that takes a default. -/
theorem Diagnoses.orDefault {α : Type} {cause? : Diagnosis} {read : Reader α}
    (h : Diagnoses cause? read) (default : α) (depth : Nat) (field : Option Node) :
    (∀ node ∈ field, cause? depth node = none)
      ↔ (orDefault? default read depth field).isSome = true := by
  cases field with
  | none => simp [orDefault?]
  | some node => simp [orDefault?, h depth node]

/-! ## Records -/

/-- Nothing is wrong with what a record gives for a field. -/
def Field.Accepts (field : Field) (depth : Nat) (given : Option Node) : Prop :=
  ∀ node ∈ given, field.cause? depth node = none

/-- No name belongs to both of two fields. -/
def Field.Apart (field other : Field) : Prop :=
  ∀ name ∈ field.names, name ∉ other.names

instance : Std.Symm Field.Apart :=
  ⟨fun _ _ h name hother hfield => h name hfield hother⟩

section Records

variable {fields : List Field} {field : Field} {depth : Nat} {seen : List String}
  {named : List (String × Node)} {member : String × Node}

/-- Nothing is wrong with an array when there are fields for all of its items and each field accepts
what it gets; the last ones may get nothing. -/
theorem listedCause?_eq_none_iff (fields : List Field) (items : List Node) :
    listedCause? depth fields items = none ↔ items.length ≤ fields.length ∧
      List.Forall₂ (fun field given => field.Accepts depth given) fields
        (items.map some ++ List.replicate (fields.length - items.length) none) := by
  induction fields generalizing items with
  | nil => cases items <;> simp [listedCause?]
  | cons field fields ih =>
    cases items with
    | nil =>
      have hrest := (ih []).1 (by cases fields <;> rfl)
      simpa [listedCause?, List.replicate_succ, Field.Accepts] using hrest.2
    | cons item items =>
      simp [listedCause?, ih, Field.Accepts, and_left_comm]

/-- Nothing is wrong with what the members of an object give for a field after the fields that were
seen before: it is not given, or it is given once, was not seen before and is accepted. -/
def Field.Settles (field : Field) (depth : Nat) (seen : List String)
    (named : List (String × Node)) : Prop :=
  match named.filter fun member => field.names.contains member.1 with
  | [] => True
  | [member] => field.name ∉ seen ∧ field.cause? depth member.2 = none
  | _ => False

/-- A member that is not of the field does not matter to it. -/
theorem Field.settles_cons_of_not_mem (h : member.1 ∉ field.names) :
    field.Settles depth seen (member :: named) ↔ field.Settles depth seen named := by
  rw [Settles, Settles, List.filter_cons_of_neg (by simpa using h)]

/-- A member that is of the field has to be the first one and to be accepted. -/
theorem Field.settles_cons_of_mem (h : member.1 ∈ field.names) :
    field.Settles depth seen (member :: named) ↔ field.name ∉ seen ∧
      field.cause? depth member.2 = none ∧ field.Settles depth (field.name :: seen) named := by
  rw [Settles, Settles, List.filter_cons_of_pos (by simpa using h)]
  generalize named.filter (fun member => field.names.contains member.1) = found
  rcases found with _ | ⟨other, _ | _⟩
  · simp
  · simp
  · simp

/-- Another field that was seen does not matter to it. -/
theorem Field.settles_seen_of_ne {name : String} (h : field.name ≠ name) :
    field.Settles depth (name :: seen) named ↔ field.Settles depth seen named := by
  rw [Settles, Settles]
  generalize named.filter (fun member => field.names.contains member.1) = found
  rcases found with _ | ⟨other, _ | _⟩
  · rfl
  · simp [h]
  · rfl

/-- With no fields seen before, the field is read and what it gets is accepted. -/
theorem Field.settles_nil_iff : field.Settles depth [] named
    ↔ ∃ given, field? named field.names = some given ∧ field.Accepts depth given := by
  rw [Settles, field?]
  generalize named.filter (fun member => field.names.contains member.1) = found
  rcases found with _ | ⟨member, _ | _⟩
  · simp [Accepts]
  · simp [Accepts]
  · simp

/-- A member that is of one of the fields is the first one for it, and does not matter to the others. -/
theorem forall_settles_cons_iff (hfields : fields.Pairwise Field.Apart) (hfield : field ∈ fields)
    (hname : member.1 ∈ field.names) :
    (∀ other ∈ fields, other.Settles depth seen (member :: named)) ↔ field.name ∉ seen ∧
      field.cause? depth member.2 = none ∧
      ∀ other ∈ fields, other.Settles depth (field.name :: seen) named := by
  have hother {other : Field} (hmem : other ∈ fields) (hne : other ≠ field) :
      other.Settles depth seen (member :: named)
        ↔ other.Settles depth (field.name :: seen) named := by
    have hapart : field.Apart other := hfields.forall hfield hmem hne.symm
    have hnames : other.name ≠ field.name := by
      intro hsame
      exact hapart field.name List.mem_cons_self (hsame ▸ List.mem_cons_self)
    rw [Field.settles_cons_of_not_mem (hapart _ hname), Field.settles_seen_of_ne hnames]
  constructor
  · intro h
    obtain ⟨hseen, hcause, hrest⟩ := (Field.settles_cons_of_mem hname).1 (h field hfield)
    refine ⟨hseen, hcause, fun other hmem => ?_⟩
    by_cases hsame : other = field
    · exact hsame ▸ hrest
    · exact (hother hmem hsame).1 (h other hmem)
  · rintro ⟨hseen, hcause, hrest⟩ other hmem
    by_cases hsame : other = field
    · rw [hsame, Field.settles_cons_of_mem hname]
      exact ⟨hseen, hcause, hrest field hfield⟩
    · exact (hother hmem hsame).2 (hrest other hmem)

/-- **The first fault of an object.** Nothing is wrong with the members of an object exactly when all
their names can be read and every field is settled.

**Proof sketch.** Induction on the members. A member belongs to at most one field. For that field
it is the first one, and for all others nothing changes. -/
theorem namedCause?_eq_none_iff (hfields : fields.Pairwise Field.Apart) (seen : List String)
    (members : List (Quoted × Node)) :
    namedCause? fields depth seen members = none ↔ ∃ named, members.mapM named? = some named ∧
      ∀ field ∈ fields, field.Settles depth seen named := by
  induction members generalizing seen with
  | nil => simp [namedCause?, Field.Settles]
  | cons member members ih =>
    obtain ⟨label, node⟩ := member
    rw [namedCause?]
    cases hlabel : label.text? with
    | none =>
      have hcause : label.cause? ≠ none := by
        rw [ne_eq, Quoted.cause?_eq_none_iff, hlabel]
        simp
      simp [hcause, named?, hlabel]
    | some name =>
      have hcons (P : List (String × Node) → Prop) :
          (∃ named, ((label, node) :: members).mapM named? = some named ∧ P named)
            ↔ ∃ named, members.mapM named? = some named ∧ P ((name, node) :: named) := by
        rw [List.mapM_cons, named?, hlabel]
        cases members.mapM named? <;> simp
      simp only [hcons]
      cases hfind : fields.find? fun field => field.names.contains name with
      | none =>
        have hother : ∀ field ∈ fields, name ∉ field.names := by simpa using hfind
        rw [ih]
        refine exists_congr fun named => and_congr_right fun _ => forall₂_congr fun field hfield => ?_
        exact (Field.settles_cons_of_not_mem (hother field hfield)).symm
      | some field =>
        have hfield : field ∈ fields := List.mem_of_find?_eq_some hfind
        have hname : (name, node).1 ∈ field.names := by simpa using List.find?_some hfind
        simp only [forall_settles_cons_iff hfields hfield hname]
        by_cases hseen : field.name ∈ seen
        · simp [hseen]
        · have hnew : seen.contains field.name = false := by simpa using hseen
          simp only [hnew, Bool.false_eq_true, if_false, Option.or_eq_none_iff, ih]
          constructor
          · rintro ⟨hcause, named, hnamed, hrest⟩
            exact ⟨named, hnamed, hseen, hcause, hrest⟩
          · rintro ⟨named, hnamed, -, hcause, hrest⟩
            exact ⟨hcause, named, hnamed, hrest⟩

/-- Members of a list that each have a result with two properties have a list of them. -/
theorem exists_forall₂_and_iff {α β : Type} {R S : α → β → Prop} {list : List α} :
    (∃ results, List.Forall₂ R list results ∧ List.Forall₂ S list results)
      ↔ ∀ member ∈ list, ∃ result, R member result ∧ S member result := by
  induction list with
  | nil => simp
  | cons member list ih =>
    rw [List.forall_mem_cons, ← ih]
    constructor
    · rintro ⟨_, _ | ⟨hR, hRs⟩, _ | ⟨hS, hSs⟩⟩
      exact ⟨⟨_, hR, hS⟩, _, hRs, hSs⟩
    · rintro ⟨⟨result, hR, hS⟩, results, hRs, hSs⟩
      exact ⟨result :: results, .cons hR hRs, .cons hS hSs⟩

/-- **The fields of a record with which nothing is wrong**: they are read, and each accepts what it
gets. -/
theorem recordCause?_eq_none_iff (hfields : fields.Pairwise Field.Apart) (kind : String) (depth : Nat)
    (node : Node) :
    recordCause? kind fields (depth + 1) node = none ↔
      ∃ found, fields? (fields.map Field.names) node = some found ∧
        List.Forall₂ (fun field given => field.Accepts depth given) fields found := by
  cases node with
  | array items =>
    rw [recordCause?, listedCause?_eq_none_iff, fields?, List.length_map]
    by_cases hlength : items.length ≤ fields.length
    · simp [hlength]
    · simp [hlength]
  | object members =>
    have hread : fields? (fields.map Field.names) (.object members)
        = (members.mapM named?).bind fun named =>
          fields.mapM fun field => field? named field.names := by
      rw [fields?]
      simp only [List.mapM_map]
      rfl
    rw [recordCause?, namedCause?_eq_none_iff hfields, hread]
    simp only [Field.settles_nil_iff, ← exists_forall₂_and_iff, Option.bind_eq_some_iff,
      mapM_eq_some_iff]
    constructor
    · rintro ⟨named, hnamed, found, hfound, haccepts⟩
      exact ⟨found, ⟨named, hnamed, hfound⟩, haccepts⟩
    · rintro ⟨found, ⟨named, hnamed, hfound⟩, haccepts⟩
      exact ⟨named, hnamed, found, hfound, haccepts⟩
  | null | bool _ | number _ | string _ =>
    simp [recordCause?, fields?, kindCause?_ne_none]

/-- Nothing can be read without levels. -/
theorem recordCause?_zero_ne_none (kind : String) (fields : List Field) (node : Node) :
    recordCause? kind fields 0 node ≠ none := by
  cases node with
  | array _ | object _ => simp [recordCause?]
  | null | bool _ | number _ | string _ => simp [recordCause?, kindCause?_ne_none]

end Records

end Json

open Json

/-! ## Saved filters and settings -/

/-- Records are read when nothing is wrong with them. -/
theorem Records.diagnoses : Diagnoses cause? read? := by
  intro depth node
  rw [cause?, Option.or_eq_none_iff, diagnoses_value]
  constructor
  · rintro ⟨-, h⟩
    by_contra hnone
    simp [hnone] at h
  · intro h
    have hvalue : (value? depth node).isSome = true := by
      by_contra hnone
      simp [read?, hnone] at h
    simp [hvalue, h]

/-- The object that holds the records is read when nothing is wrong with it. -/
theorem Records.diagnoses_holder : Diagnoses holderCause? readHolder? := by
  intro depth node
  cases depth with
  | zero => simp [holderCause?, recordCause?_zero_ne_none, readHolder?]
  | succ depth =>
    have hnames : [["keyword"]] = [(⟨"keyword", [], cause?⟩ : Field)].map Field.names := rfl
    rw [holderCause?, recordCause?_eq_none_iff (List.pairwise_singleton _ _), ← hnames, readHolder?]
    cases fields? [["keyword"]] node with
    | none => simp
    | some found =>
      rcases found with _ | ⟨records, _ | _⟩
      · simp
      · simpa [Field.Accepts] using diagnoses.orDefault (.many []) depth records
      · simp

/-- **Saved filters are read when nothing is wrong with them.** -/
theorem SavedFilter.diagnoses : Diagnoses cause? read? := by
  intro depth node
  cases depth with
  | zero => simp [cause?, recordCause?_zero_ne_none, read?]
  | succ depth =>
    have hapart : fields.Pairwise Field.Apart := by simp [fields, Field.Apart, Field.names]
    have hnames : fieldNames = fields.map Field.names := rfl
    rw [cause?, recordCause?_eq_none_iff hapart, ← hnames, read?]
    cases fields? fieldNames node with
    | none => simp
    | some found =>
      rcases found with _ | ⟨id, _ | ⟨kind, _ | ⟨name, _ | ⟨term, _ | ⟨keywords, _ | _⟩⟩⟩⟩⟩
      case some.cons.cons.cons.cons.cons.nil =>
        have hstring := diagnoses_string.optional depth
        have hholder := Records.diagnoses_holder.optional depth
        simp only [Option.some.injEq, exists_eq_left', fields, List.forall₂_cons, List.Forall₂.nil,
          and_true, Field.Accepts, hstring, hholder, Option.bind_eq_bind, Option.bind_some,
          Option.isSome_iff_exists, Option.bind_eq_some_iff]
        constructor
        · rintro ⟨⟨id, hid⟩, ⟨kind, hkind⟩, ⟨name, hname⟩, ⟨term, hterm⟩, keywords, hkeywords⟩
          exact ⟨_, id, hid, kind, hkind, name, hname, term, hterm, keywords, hkeywords, rfl⟩
        · rintro ⟨_, id, hid, kind, hkind, name, hname, term, hterm, keywords, hkeywords, -⟩
          exact ⟨⟨id, hid⟩, ⟨kind, hkind⟩, ⟨name, hname⟩, ⟨term, hterm⟩, keywords, hkeywords⟩
      all_goals simp [fields]

/-- **Settings are read when nothing is wrong with them.** -/
theorem Settings.diagnoses : Diagnoses cause? read? := by
  intro depth node
  cases depth with
  | zero => simp [cause?, recordCause?_zero_ne_none, read?]
  | succ depth =>
    have hapart : fields.Pairwise Field.Apart := by simp [fields, Field.Apart, Field.names]
    have hnames : fieldNames.map (fun name => [name]) = fields.map Field.names := rfl
    rw [cause?, recordCause?_eq_none_iff hapart, ← hnames, read?]
    cases fields? (fieldNames.map fun name => [name]) node with
    | none => simp
    | some found =>
      rcases found with _ | ⟨rows, _ | ⟨first, _ | ⟨keywords, _ | _⟩⟩⟩
      case some.cons.cons.cons.nil =>
        have hrows := diagnoses_int64.orDefault default.defaultRows depth rows
        have hfirst := diagnoses_int64.orDefault default.defaultFirst depth first
        have hkeywords := diagnoses_string.list.orDefault default.numericKeywords depth keywords
        simp only [Option.some.injEq, exists_eq_left', fields, List.forall₂_cons, List.Forall₂.nil,
          and_true, Field.Accepts, hrows, hfirst, hkeywords, Option.bind_eq_bind, Option.bind_some,
          Option.isSome_iff_exists, Option.bind_eq_some_iff]
        constructor
        · rintro ⟨⟨rows, hrows⟩, ⟨first, hfirst⟩, keywords, hkeywords⟩
          exact ⟨_, rows, hrows, first, hfirst, keywords, hkeywords, rfl⟩
        · rintro ⟨_, rows, hrows, first, hfirst, keywords, hkeywords, -⟩
          exact ⟨⟨rows, hrows⟩, ⟨first, hfirst⟩, keywords, hkeywords⟩
      all_goals simp [fields]

/-! ## Decoding -/

/-- A text from which nothing is decoded is not JSON, or something is wrong with its document. -/
theorem Json.decode?_eq_none_iff {α : Type} {cause? : Diagnosis} {read : Reader α}
    (h : Diagnoses cause? read) {source : String} :
    decode? read source = none ↔ Node.ofText? source = none ∨
      ∃ node cause, Node.ofText? source = some node ∧ cause? maxDepth node = some cause := by
  rw [decode?]
  cases Node.ofText? source with
  | none => simp
  | some node =>
    have hnone : read maxDepth node = none ↔ ∃ cause, cause? maxDepth node = some cause := by
      rw [← Option.not_isSome_iff_eq_none, ← h, ← ne_eq, Option.ne_none_iff_exists']
    simpa using hnone

/-- **The errors of decoding a saved filter.** The text is not JSON, or its document has a first thing
that is wrong with it. -/
theorem SavedFilter.ofJson_eq_error_iff {source : String} {error : Error} :
    ofJson source = .error error ↔
      Node.ofText? source = none ∧ error = .malformed ⟨.savedFilter, source, none⟩ ∨
        ∃ node cause, Node.ofText? source = some node ∧ cause? maxDepth node = some cause ∧
          error = .malformed ⟨.savedFilter, source, some cause⟩ := by
  have herror : ofJson source = .error error
      ↔ decode? read? source = none ∧ error = .malformed (decodeFault source) := by
    rw [ofJson]
    cases decode? read? source <;> simp [eq_comm]
  rw [herror, Json.decode?_eq_none_iff diagnoses, decodeFault, decodeCause?]
  cases Node.ofText? source with
  | none => simp
  | some node =>
    simp only [reduceCtorEq, false_and, false_or, Option.some.injEq, exists_eq_left', Option.bind_some,
      exists_and_left]
    constructor
    · rintro ⟨⟨cause, hcause⟩, rfl⟩
      exact ⟨cause, hcause, by rw [hcause]⟩
    · rintro ⟨cause, hcause, rfl⟩
      exact ⟨⟨cause, hcause⟩, by rw [hcause]⟩

end QueryFilter
