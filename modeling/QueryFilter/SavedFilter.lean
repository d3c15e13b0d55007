import QueryFilter.Filter.Basic
import QueryFilter.Record

set_option relaxedAutoImplicit false
set_option autoImplicit false

/-!
# Saved filters

A filter as a server hands it out: its identity, its text, and perhaps its terms as keyword records.
If there are records, the text is ignored. A list of records with a single member may have been
written as that member alone.

## Main definitions

* `QueryFilter.Records` — a list of records, or a single one.
* `QueryFilter.SavedFilter` — saved filters.
* `QueryFilter.SavedFilter.toJson`, `QueryFilter.SavedFilter.ofJson` — saved filters as JSON.
* `QueryFilter.Filter.ofSaved`, `QueryFilter.Filter.ofJson` — the filter that was saved.
-/

namespace QueryFilter

/-- A list of records, or a single record that stands for the list of it. -/
inductive Records where
  | many (records : List Record)
  | one (record : Record)
  deriving DecidableEq

namespace Records

/-- The records in order. -/
def toList : Records → List Record
  | many records => records
  | one record => [record]

/-- The records as JSON: an array, or the single record. -/
def toJson : Records → Json.Value
  | many records => .array (records.map Record.toJson)
  | one record => record.toJson

/-- Reads an array of records or else a single record. Everything inside has to be readable as a
value, also what the records pass over. -/
def read? : Json.Reader Records := fun depth node =>
  if (Json.value? depth node).isSome then
    match Json.list? Record.read? depth node with
    | some records => some (.many records)
    | none => (Record.read? depth node).map .one
  else
    none

/-- The first thing wrong with records: what has to be readable as a value and is not, or else that they
are neither an array of records nor a single one. -/
def cause? : Json.Diagnosis := fun depth node =>
  (Json.valueCause? depth node).or
    (if (read? depth node).isSome then none else some (.noVariant "OneOrMany"))

/-- Reads the object that holds the records; without them it stands for no records. -/
def readHolder? : Json.Reader Records
  | 0, _ => none
  | depth + 1, node => do
    let [records] ← Json.fields? [["keyword"]] node | none
    Json.orDefault? (.many []) read? depth records

/-- The first thing wrong with the object that holds the records. -/
def holderCause? : Json.Diagnosis :=
  Json.recordCause? "KeywordList" [⟨"keyword", [], cause?⟩]

end Records

/-- A filter as it is saved. -/
@[ext]
structure SavedFilter where
  id : Option String
  kind : Option String
  name : Option String
  term : Option String
  keywords : Option Records
  deriving DecidableEq

namespace SavedFilter

/-- Whether the terms are given as records. -/
def hasKeywords (saved : SavedFilter) : Bool :=
  saved.keywords.isSome

/-- The terms of the records, or the error of the first record that has one. -/
def keywordTerms (saved : SavedFilter) : Except Error (List Term) :=
  match saved.keywords with
  | none => .ok []
  | some records => records.toList.mapM Record.toTerm

/-! ## JSON -/

/-- The names of the fields, in their order. -/
def fieldNames : List (List String) := [["id", "_id"], ["type"], ["name"], ["term"], ["keywords"]]

/-- The saved filter as JSON. -/
def toJson (saved : SavedFilter) : Json.Value :=
  .object
    [("id", .ofString? saved.id), ("type", .ofString? saved.kind), ("name", .ofString? saved.name),
      ("term", .ofString? saved.term),
      ("keywords",
        match saved.keywords with
        | none => .null
        | some records => .object [("keyword", records.toJson)])]

/-- Reads a saved filter; every field may be missing. -/
def read? : Json.Reader SavedFilter
  | 0, _ => none
  | depth + 1, node => do
    let [id, kind, name, term, keywords] ← Json.fields? fieldNames node | none
    let id ← Json.optional? Json.string? depth id
    let kind ← Json.optional? Json.string? depth kind
    let name ← Json.optional? Json.string? depth name
    let term ← Json.optional? Json.string? depth term
    let keywords ← Json.optional? Records.readHolder? depth keywords
    some ⟨id, kind, name, term, keywords⟩

/-- The fields, with the diagnosis of each. -/
def fields : List Json.Field :=
  [⟨"id", ["_id"], Json.optionalCause? Json.stringCause?⟩,
    ⟨"type", [], Json.optionalCause? Json.stringCause?⟩,
    ⟨"name", [], Json.optionalCause? Json.stringCause?⟩,
    ⟨"term", [], Json.optionalCause? Json.stringCause?⟩,
    ⟨"keywords", [], Json.optionalCause? Records.holderCause?⟩]

/-- The first thing wrong with a document that no saved filter can be read from. -/
def cause? : Json.Diagnosis :=
  Json.recordCause? "FilterElement" fields

/-- What is wrong with a text that no saved filter can be decoded from. -/
def decodeFault (source : String) : DecodeFault :=
  ⟨.savedFilter, source, Json.decodeCause? cause? source⟩

/-- The saved filter that a JSON text writes. -/
def ofJson (source : String) : Except Error SavedFilter :=
  match Json.decode? read? source with
  | some saved => .ok saved
  | none => .error (.malformed (decodeFault source))

end SavedFilter

namespace Filter

/-- The filter that was saved: with the terms of its records if there are any, otherwise with those
of its text. -/
def ofSaved (saved : SavedFilter) : Except Error Filter := do
  let terms ←
    if saved.hasKeywords then saved.keywordTerms
    else .ok ((saved.term.map termsOfText).getD [])
  .ok ⟨terms, saved.id, saved.kind, saved.name⟩

/-- The filter that a JSON text saves. -/
def ofJson (source : String) : Except Error Filter := do
  ofSaved (← SavedFilter.ofJson source)

/-- What is reported when a saved filter is made into a filter. -/
def savedNotices (saved : SavedFilter) : List Notice :=
  match saved.keywords, saved.keywordTerms, saved.term with
  | some _, .ok terms, _ => [.converted terms.length]
  | none, _, some text => parseNotices text
  | _, _, _ => []

end Filter

end QueryFilter
