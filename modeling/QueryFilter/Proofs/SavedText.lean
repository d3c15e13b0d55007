import QueryFilter.Proofs.JsonScan
import QueryFilter.Proofs.JsonValues
import QueryFilter.SavedFilter

set_option relaxedAutoImplicit false
set_option autoImplicit false

/-!
# Saved filters, writing and reading back

A saved filter can be read from many texts: its fields may stand in an array or in an object, in any
order and under two names, and a record may stand for the list of it. It is written in one way only,
as objects with all of their fields. What was read once and has no numbers but integers is read back
from there as it is, a list as a list and a single record as a single record.

## Main definitions

* `QueryFilter.SavedFilter.IsIntegral` — saved filters whose records have integers for numbers.

## Main results

* `QueryFilter.Json.fields?_toNode` — the fields of an object that is written.
* `QueryFilter.Record.read?_toJson` — records that were read are read back.
* `QueryFilter.Records.read?_toJson` — so are lists of records, and single records.
* `QueryFilter.SavedFilter.ofJson_toJson` — so are saved filters.
-/

namespace QueryFilter

/-! ## Fields -/

namespace Json

/-- The fields of an object that is written are looked up by the names of its members. -/
theorem fields?_toNode (fields : List (List String)) (members : List (String × Value)) :
    fields? fields (Value.object members).toNode
      = fields.mapM (field? (members.map fun member => (member.1, member.2.toNode))) := by
  simp only [Value.toNode, fields?, Value.toMembers_eq_map, List.mapM_map, Function.comp_def,
    Quoted.text?_ofText, Option.map_some]
  rw [← Option.pure_def, List.mapM_pure, Option.pure_def, Option.bind_eq_bind, Option.bind_some]

/-- A text that is written is read back. -/
theorem string?_toNode (depth : Nat) (text : String) :
    string? depth (Value.string text).toNode = some text :=
  Quoted.text?_ofText text

/-- A text that may be missing is read back. -/
theorem optional?_string?_toNode (depth : Nat) (text : Option String) :
    optional? string? depth (some (Value.ofString? text).toNode) = some text := by
  cases text with
  | none => rfl
  | some text =>
    show (string? depth (Value.string text).toNode).map some = _
    rw [string?_toNode, Option.map_some]

/-- A text that may be missing has no numbers. -/
theorem Value.isIntegral_ofString? (text : Option String) : (ofString? text).IsIntegral := by
  cases text with
  | none => exact .null
  | some text => exact .string text

/-- What is read for a field that may be missing is read from its document. -/
theorem exists_of_optional? {α : Type} {read : Reader α} {depth : Nat} {field : Option Node}
    {result : α} (h : optional? read depth field = some (some result)) :
    ∃ node, read depth node = some result := by
  unfold optional? at h
  split at h
  · cases h
  · cases h
  · next node _ =>
    obtain ⟨found, hfound, heq⟩ := Option.map_eq_some_iff.1 h
    exact ⟨node, hfound.trans heq⟩

/-- What is read as a list is read item by item, one level further in. -/
theorem exists_of_list? {α : Type} {read : Reader α} {depth : Nat} {node : Node} {list : List α}
    (h : list? read depth node = some list) :
    ∃ inner, depth = inner + 1 ∧ ∀ member ∈ list, ∃ item, read inner item = some member := by
  cases node with
  | array items =>
    cases depth with
    | zero => contradiction
    | succ depth =>
      refine ⟨depth, rfl, fun member hmember => ?_⟩
      obtain ⟨item, -, hitem⟩ := exists_mem_of_mapM h member hmember
      exact ⟨item, hitem⟩
  | null | bool _ | number _ | string _ | object _ => cases depth <;> contradiction

/-- A list is read from what is written for it, when each of its members is. -/
theorem list?_toNode {α : Type} {read : Reader α} {write : α → Value} {depth : Nat} {list : List α}
    (h : ∀ member ∈ list, read depth (write member).toNode = some member) :
    list? read (depth + 1) (Value.array (list.map write)).toNode = some list := by
  rw [Value.toNode, list?, Value.toNodes_eq_map, List.map_map]
  exact mapM_map_eq_some h

end Json

/-! ## Records -/

namespace Record

open Json

/-- The value of a record that was read is read again. -/
theorem value?_of_read? {depth : Nat} {node : Node} {record : Record}
    (h : read? (depth + 1) node = some record) (hvalue : record.value.IsIntegral) :
    value? depth record.value.toNode = some record.value := by
  rw [read?, Option.bind_eq_bind, Option.bind_eq_some_iff] at h
  obtain ⟨fields, -, h⟩ := h
  split at h
  · next column relation value =>
    simp only [Option.bind_eq_bind, Option.bind_eq_some_iff, Option.some.injEq] at h
    obtain ⟨_, -, _, -, found, hfound, rfl⟩ := h
    cases value with
    | none =>
      cases hfound
      rfl
    | some node => exact value?_toNode hfound hvalue
  · contradiction

/-- A record is read from what is written for it, when its value is. -/
theorem read?_toNode {depth : Nat} {record : Record}
    (h : value? depth record.value.toNode = some record.value) :
    read? (depth + 1) record.toJson.toNode = some record := by
  have hfields : fields? [["column"], ["relation"], ["value"]] record.toJson.toNode
      = some [some (Value.string record.column).toNode, some (Value.string record.relation).toNode,
          some record.value.toNode] := by
    rw [toJson, fields?_toNode]
    rfl
  rw [read?, hfields]
  simp only [Option.bind_eq_bind, Option.bind_some, orDefault?, string?_toNode, h]

/-- **A record that was read is read back** from what is written for it. -/
theorem read?_toJson {depth : Nat} {node : Node} {record : Record}
    (h : read? depth node = some record) (hvalue : record.value.IsIntegral) :
    read? depth record.toJson.toNode = some record := by
  cases depth with
  | zero => contradiction
  | succ depth => exact read?_toNode (value?_of_read? h hvalue)

/-- What is written for a record is a value that can be read. -/
theorem value?_toJson {depth : Nat} {node : Node} {record : Record}
    (h : read? depth node = some record) (hvalue : record.value.IsIntegral) :
    value? depth record.toJson.toNode = some record.toJson := by
  cases depth with
  | zero => contradiction
  | succ depth =>
    refine value?_toNode_object ?_ ?_
    · simp only [Value.SortedMembers, List.pairwise_cons, List.forall_mem_cons]
      exact ⟨⟨by decide, by decide, nofun⟩, ⟨by decide, nofun⟩, nofun, List.Pairwise.nil⟩
    · simp only [List.forall_mem_cons]
      exact ⟨value?_toNode_string depth _, value?_toNode_string depth _,
        value?_of_read? h hvalue, nofun⟩

/-- The record is integral as a whole when its value is. -/
theorem isIntegral_toJson {record : Record} (hvalue : record.value.IsIntegral) :
    record.toJson.IsIntegral := by
  refine .object ?_
  simp only [List.forall_mem_cons]
  exact ⟨.string _, .string _, hvalue, nofun⟩

end Record

/-! ## Lists of records -/

namespace Records

open Json

/-- Records whose values have integers for numbers. -/
def IsIntegral (records : Records) : Prop :=
  ∀ record ∈ records.toList, record.value.IsIntegral

/-- A list of records that were read one by one is read as that list. -/
theorem read?_many {depth : Nat} {list : List Record}
    (h : ∀ record ∈ list, ∃ node, Record.read? depth node = some record)
    (hintegral : (many list).IsIntegral) :
    read? (depth + 1) (many list).toJson.toNode = some (many list) := by
  have hvalues : value? (depth + 1) (many list).toJson.toNode = some (many list).toJson := by
    refine value?_toNode_array fun item hitem => ?_
    obtain ⟨record, hrecord, rfl⟩ := List.mem_map.1 hitem
    obtain ⟨node, hnode⟩ := h record hrecord
    exact Record.value?_toJson hnode (hintegral record hrecord)
  have hlist : list? Record.read? (depth + 1) (many list).toJson.toNode = some list := by
    refine list?_toNode fun record hrecord => ?_
    obtain ⟨node, hnode⟩ := h record hrecord
    exact Record.read?_toJson hnode (hintegral record hrecord)
  rw [read?, hvalues, hlist]
  rfl

/-- A single record that was read is read as a single record. -/
theorem read?_one {depth : Nat} {node : Node} {record : Record}
    (h : Record.read? depth node = some record) (hvalue : record.value.IsIntegral) :
    read? depth (one record).toJson.toNode = some (one record) := by
  -- it is written as an object even if it was an array, so that it cannot be taken for a list
  have hnone : list? Record.read? depth record.toJson.toNode = none := by
    cases depth with
    | zero => rfl
    | succ depth => rfl
  rw [read?, toJson, Record.value?_toJson h hvalue, hnone, Record.read?_toJson h hvalue]
  rfl

/-- **Records that were read are read back**, a list as a list and a single one as a single one. -/
theorem read?_toJson {depth : Nat} {node : Node} {records : Records}
    (h : read? depth node = some records) (hintegral : records.IsIntegral) :
    read? depth records.toJson.toNode = some records := by
  rw [read?] at h
  split at h
  · split at h
    · next list hlist =>
      cases h
      obtain ⟨inner, rfl, hread⟩ := exists_of_list? hlist
      exact read?_many hread hintegral
    · obtain ⟨record, hrecord, rfl⟩ := Option.map_eq_some_iff.1 h
      exact read?_one hrecord (hintegral record (List.mem_singleton_self record))
  · contradiction

/-- What holds the records, as JSON. -/
def holder (records : Records) : Value :=
  .object [("keyword", records.toJson)]

/-- The holder is read from what is written for it, when the records are. -/
theorem readHolder?_toNode {depth : Nat} {records : Records}
    (h : read? depth records.toJson.toNode = some records) :
    readHolder? (depth + 1) records.holder.toNode = some records := by
  have hfields : fields? [["keyword"]] records.holder.toNode
      = some [some records.toJson.toNode] := by
    rw [holder, fields?_toNode]
    rfl
  rw [readHolder?, hfields]
  exact h

/-- **The holder that was read is read back** from what is written for it, if there is a level for
a list of records. -/
theorem readHolder?_holder {depth : Nat} {node : Node} {records : Records}
    (h : readHolder? (depth + 2) node = some records) (hintegral : records.IsIntegral) :
    readHolder? (depth + 2) records.holder.toNode = some records := by
  refine readHolder?_toNode ?_
  rw [readHolder?, Option.bind_eq_bind, Option.bind_eq_some_iff] at h
  obtain ⟨fields, -, h⟩ := h
  split at h
  · next keyword =>
    cases keyword with
    | none =>
      cases h
      rfl
    | some node => exact read?_toJson h hintegral
  · contradiction

/-- The records are integral as a whole when their values are. -/
theorem isIntegral_holder {records : Records} (h : records.IsIntegral) :
    records.holder.IsIntegral := by
  refine .object ?_
  rw [List.forall_mem_singleton]
  cases records with
  | many list =>
    refine .array fun item hitem => ?_
    obtain ⟨record, hrecord, rfl⟩ := List.mem_map.1 hitem
    exact Record.isIntegral_toJson (h record hrecord)
  | one record => exact Record.isIntegral_toJson (h record (List.mem_singleton_self record))

end Records

/-! ## Saved filters -/

namespace SavedFilter

open Json

/-- Saved filters whose records have integers for numbers. -/
def IsIntegral (saved : SavedFilter) : Prop :=
  ∀ records, saved.keywords = some records → records.IsIntegral

/-- What is written for a saved filter has integers for numbers, if its records have. -/
theorem isIntegral_toJson {saved : SavedFilter} (h : saved.IsIntegral) :
    saved.toJson.IsIntegral := by
  refine .object ?_
  simp only [List.forall_mem_cons]
  refine ⟨Value.isIntegral_ofString? _, Value.isIntegral_ofString? _, Value.isIntegral_ofString? _,
    Value.isIntegral_ofString? _, ?_, nofun⟩
  cases hkeywords : saved.keywords with
  | none => exact .null
  | some records => exact Records.isIntegral_holder (h records hkeywords)

/-- What is written for the records. -/
def keywordsJson (saved : SavedFilter) : Value :=
  saved.keywords.elim .null Records.holder

/-- What is written for a saved filter, field by field. -/
theorem toJson_eq (saved : SavedFilter) :
    saved.toJson = .object
      [("id", .ofString? saved.id), ("type", .ofString? saved.kind), ("name", .ofString? saved.name),
        ("term", .ofString? saved.term), ("keywords", saved.keywordsJson)] := by
  rw [toJson, keywordsJson]
  cases saved.keywords with
  | none => rfl
  | some records => rfl

/-- The holder of the records of a saved filter that was read is read back. -/
theorem readHolder?_of_read? {depth : Nat} {node : Node} {saved : SavedFilter}
    (h : read? (depth + 3) node = some saved) (hintegral : saved.IsIntegral) {records : Records}
    (hrecords : saved.keywords = some records) :
    Records.readHolder? (depth + 2) records.holder.toNode = some records := by
  rw [read?, Option.bind_eq_bind, Option.bind_eq_some_iff] at h
  obtain ⟨fields, -, h⟩ := h
  split at h
  · simp only [Option.bind_eq_bind, Option.bind_eq_some_iff, Option.some.injEq] at h
    obtain ⟨_, -, _, -, _, -, _, -, found, hfound, rfl⟩ := h
    cases hrecords
    obtain ⟨node, hnode⟩ := exists_of_optional? hfound
    exact Records.readHolder?_holder hnode (hintegral records rfl)
  · contradiction

/-- The records that a saved filter may have are read from what is written for them, when their
holder is. -/
theorem optional?_keywordsJson {depth : Nat} {saved : SavedFilter}
    (h : ∀ records, saved.keywords = some records →
      Records.readHolder? depth records.holder.toNode = some records) :
    optional? Records.readHolder? depth (some saved.keywordsJson.toNode) = some saved.keywords := by
  rw [keywordsJson]
  cases hkeywords : saved.keywords with
  | none => rfl
  | some records => exact congrArg (Option.map some) (h records hkeywords)

/-- **A saved filter that was read is read back** from what is written for it, if there are levels
for a list of records. -/
theorem read?_toJson {depth : Nat} {node : Node} {saved : SavedFilter}
    (h : read? (depth + 3) node = some saved) (hintegral : saved.IsIntegral) :
    read? (depth + 3) saved.toJson.toNode = some saved := by
  have hkeywords := optional?_keywordsJson fun _ => readHolder?_of_read? h hintegral
  have hfields : fields? fieldNames saved.toJson.toNode
      = some [some (Value.ofString? saved.id).toNode, some (Value.ofString? saved.kind).toNode,
          some (Value.ofString? saved.name).toNode, some (Value.ofString? saved.term).toNode,
          some saved.keywordsJson.toNode] := by
    rw [toJson_eq, fields?_toNode]
    rfl
  rw [read?, hfields]
  simp only [Option.bind_eq_bind, Option.bind_some, optional?_string?_toNode, hkeywords]

/-- **Saved filters are read back as they are.** A text is read as a saved filter, and the numbers in
the values of its records are integers. Then the text that is written for the saved filter is read as
the same one: what is missing stays missing, a list of records stays a list and a single record stays
a single record, and every column, relation and value is the same. -/
theorem ofJson_toJson {source : String} {saved : SavedFilter} (h : ofJson source = .ok saved)
    (hintegral : saved.IsIntegral) : ofJson saved.toJson.compact = .ok saved := by
  have hread : ∃ node, read? maxDepth node = some saved := by
    rw [ofJson] at h
    split at h
    · next found hfound =>
      cases h
      obtain ⟨node, -, hnode⟩ := Option.bind_eq_some_iff.1 hfound
      exact ⟨node, hnode⟩
    · contradiction
  obtain ⟨node, hnode⟩ := hread
  rw [ofJson, decode?_compact read? (isIntegral_toJson hintegral), maxDepth,
    read?_toJson hnode hintegral]

/-- A saved filter whose records were an array without names, one of them an array itself and the
other one without a column and with a nested value. -/
theorem ofJson_toJson_two :
    let source := "\x7b\"name\":\"caf\\u00e9\",\"keywords\":[[[\"rows\",\"=\",10]," ++
      "\x7b\"value\":[-3,\x7b\"b\":null,\"a\":\"\\n\\u0001\"\x7d]\x7d]]\x7d"
    let nested : Value :=
      .array [.number (.integer (-3)), .object [("a", .string "\n\x01"), ("b", .null)]]
    let saved : SavedFilter := ⟨none, none, some "café", none,
      some (.many [⟨"rows", "=", .number (.integer 10)⟩, ⟨"", "", nested⟩])⟩
    ofJson source = .ok saved ∧ saved.IsIntegral ∧ ofJson saved.toJson.compact = .ok saved := by
  intro source nested saved
  have hread : ofJson source = .ok saved := by decide +kernel +zetaReduce
  have hnested : nested.IsIntegral := by
    refine .array ?_
    simp only [List.forall_mem_cons]
    refine ⟨.integer _, .object ?_, nofun⟩
    simp only [List.forall_mem_cons]
    exact ⟨.string _, .null, nofun⟩
  have hintegral : saved.IsIntegral := by
    rintro records ⟨rfl⟩
    simp only [Records.IsIntegral, Records.toList, List.forall_mem_cons]
    exact ⟨.integer _, hnested, nofun⟩
  exact ⟨hread, hintegral, ofJson_toJson hread hintegral⟩

end SavedFilter

end QueryFilter
