import Mathlib.Data.List.Forall2
import QueryFilter.Proofs.Causes
import QueryFilter.Proofs.Converting
import QueryFilter.Proofs.SavedText

set_option relaxedAutoImplicit false
set_option autoImplicit false

/-!
# A single record for a list of one

Instead of a list with one record, a saved filter may hold that record alone. It means the same,
although the reader has a choice: records may be written as arrays, so that an array with a wrong
record in it could still be a record itself, with the wrong one for its column. But a column is a
text, and a record that was written as an object is not. Nor does it matter that the array takes up
one more level, as long as there are enough of them.

What is wrong with a saved filter is the same either way, too. The messages only tell it apart by the
place in the text, which the brackets of the list move.

## Main definitions

* `QueryFilter.Json.Node.depth` — the number of levels of a document.
* `QueryFilter.Json.GoesByParts` — functions of the levels that are left.
* `QueryFilter.Json.Node.Alike` — objects with the same names and related documents.
* `QueryFilter.Json.Node.Place` — a place for a member among those of an object.
* `QueryFilter.SavedFilter.listed` — a saved filter with its single record as a list.

## Main results

* `QueryFilter.Json.GoesByParts.eq_of_depth_le` — it does not matter how many levels are left.
* `QueryFilter.Json.fields?_alike` — the fields of objects that are alike.
* `QueryFilter.Json.recordCause?_alike` — what is wrong with objects that are alike.
* `QueryFilter.Records.toList_read?_collapses` — a single record and a list of one are read alike.
* `QueryFilter.Filter.ofJson_single_record` — they are read alike, or the same is wrong with them,
  wherever they stand.
-/

namespace QueryFilter

namespace Json

/-! ## Levels -/

mutual

/-- The number of arrays and objects of a document that are inside each other. -/
def Node.depth : Node → Nat
  | .null | .bool _ | .number _ | .string _ => 0
  | .array items => itemsDepth items + 1
  | .object members => membersDepth members + 1

/-- The greatest depth of the items of an array. -/
def Node.itemsDepth : List Node → Nat
  | [] => 0
  | item :: items => max item.depth (Node.itemsDepth items)

/-- The greatest depth of the members of an object. -/
def Node.membersDepth : List (Quoted × Node) → Nat
  | [] => 0
  | (_, member) :: members => max member.depth (Node.membersDepth members)

end

/-- An item is at most as deep as the deepest one. -/
theorem Node.depth_le_itemsDepth {items : List Node} {item : Node} (h : item ∈ items) :
    item.depth ≤ itemsDepth items := by
  induction items with
  | nil => contradiction
  | cons first items ih =>
    rw [itemsDepth]
    rcases List.mem_cons.1 h with rfl | h
    · exact Nat.le_max_left _ _
    · exact Nat.le_trans (ih h) (Nat.le_max_right _ _)

/-- The names of members have no depth. -/
theorem Node.membersDepth_eq (members : List (Quoted × Node)) :
    membersDepth members = itemsDepth (members.map Prod.snd) := by
  induction members with
  | nil => rfl
  | cons member members ih => rw [membersDepth, ih, List.map_cons, itemsDepth]

/-- An array is a level of its own. -/
theorem Node.depth_array_pos (items : List Node) : 0 < (Node.array items).depth := by
  rw [depth]
  exact Nat.succ_pos _

/-- An object is a level of its own. -/
theorem Node.depth_object_pos (members : List (Quoted × Node)) : 0 < (Node.object members).depth := by
  rw [depth]
  exact Nat.succ_pos _

/-- An item is less deep than its array. -/
theorem Node.depth_lt_of_mem_items {items : List Node} {item : Node} (h : item ∈ items) :
    item.depth < (Node.array items).depth := by
  rw [depth]
  exact Nat.lt_succ_of_le (depth_le_itemsDepth h)

/-- A member is less deep than its object. -/
theorem Node.depth_lt_of_mem_members {members : List (Quoted × Node)} {member : Quoted × Node}
    (h : member ∈ members) : member.2.depth < (Node.object members).depth := by
  rw [depth, membersDepth_eq]
  exact Nat.lt_succ_of_le (depth_le_itemsDepth (List.mem_map_of_mem h))

/-- A function of the levels that are left and of a document, for which the levels matter only inside
arrays and objects, where there is one less of them. -/
structure GoesByParts {α : Type} (read : Nat → Node → α) : Prop where
  leaf {depth depth' : Nat} {node : Node} (h : node.depth = 0) : read depth node = read depth' node
  array {depth depth' : Nat} {items : List Node}
    (h : ∀ item ∈ items, read depth item = read depth' item) :
    read (depth + 1) (.array items) = read (depth' + 1) (.array items)
  object {depth depth' : Nat} {members : List (Quoted × Node)}
    (h : ∀ member ∈ members, read depth member.2 = read depth' member.2) :
    read (depth + 1) (.object members) = read (depth' + 1) (.object members)

/-- **What goes by parts does not depend on how many levels are left**, if there are enough of them. -/
theorem GoesByParts.eq_of_depth_le {α : Type} {read : Nat → Node → α} (hread : GoesByParts read)
    {depth depth' : Nat} {node : Node} (h : node.depth ≤ depth) (h' : node.depth ≤ depth') :
    read depth node = read depth' node := by
  induction node generalizing depth depth' with
  | null | bool _ | number _ | string _ => exact hread.leaf rfl
  | array items ih =>
    have hpos := Node.depth_array_pos items
    obtain ⟨depth, rfl⟩ := Nat.exists_eq_add_one.2 (Nat.lt_of_lt_of_le hpos h)
    obtain ⟨depth', rfl⟩ := Nat.exists_eq_add_one.2 (Nat.lt_of_lt_of_le hpos h')
    refine hread.array fun item hitem => ?_
    have hlt := Node.depth_lt_of_mem_items hitem
    exact ih item hitem (by omega) (by omega)
  | object members ih =>
    have hpos := Node.depth_object_pos members
    obtain ⟨depth, rfl⟩ := Nat.exists_eq_add_one.2 (Nat.lt_of_lt_of_le hpos h)
    obtain ⟨depth', rfl⟩ := Nat.exists_eq_add_one.2 (Nat.lt_of_lt_of_le hpos h')
    refine hread.object fun member hmember => ?_
    have hlt := Node.depth_lt_of_mem_members hmember
    exact ih member hmember (by omega) (by omega)

/-- Reading a list member by member depends on what is read for its members only. -/
theorem mapM_congr_of_mem {α β : Type} {read read' : α → Option β} {list : List α}
    (h : ∀ member ∈ list, read member = read' member) : list.mapM read = list.mapM read' := by
  induction list with
  | nil => rfl
  | cons member list ih =>
    rw [List.forall_mem_cons] at h
    rw [List.mapM_cons, List.mapM_cons, h.1, ih h.2]

/-- The first member that has a finding depends on the findings of the members only. -/
theorem findSome?_congr_of_mem {α β : Type} {find find' : α → Option β} {list : List α}
    (h : ∀ member ∈ list, find member = find' member) : list.findSome? find = list.findSome? find' := by
  induction list with
  | nil => rfl
  | cons member list ih =>
    rw [List.forall_mem_cons] at h
    rw [List.findSome?_cons, List.findSome?_cons, h.1, ih h.2]

/-- A value is read part by part. -/
theorem goesByParts_value : GoesByParts value? where
  leaf {depth depth' node} h := by
    cases node with
    | null | bool _ | number _ | string _ => simp only [value?]
    | array items => exact absurd h (Node.depth_array_pos items).ne'
    | object members => exact absurd h (Node.depth_object_pos members).ne'
  array h := by
    rw [value?, value?, items?_eq_mapM, items?_eq_mapM, mapM_congr_of_mem h]
  object {depth depth' members} h := by
    have hmembers : ∀ member ∈ members, member? depth member = member? depth' member := by
      intro member hmember
      rw [member?, member?, h member hmember]
    rw [value?, value?, members?_eq_mapM, members?_eq_mapM, mapM_congr_of_mem hmembers]

/-- What is wrong with a value is found part by part. -/
theorem goesByParts_valueCause : GoesByParts valueCause? where
  leaf {depth depth' node} h := by
    cases node with
    | null | bool _ | number _ | string _ => simp only [valueCause?]
    | array items => exact absurd h (Node.depth_array_pos items).ne'
    | object members => exact absurd h (Node.depth_object_pos members).ne'
  array h := by
    rw [valueCause?, valueCause?, itemsCause?_eq_findSome?, itemsCause?_eq_findSome?,
      findSome?_congr_of_mem h]
  object {depth depth' members} h := by
    have hmembers : ∀ member ∈ members, memberCause? depth member = memberCause? depth' member := by
      intro member hmember
      rw [memberCause?, memberCause?, h member hmember]
    rw [valueCause?, valueCause?, membersCause?_eq_findSome?, membersCause?_eq_findSome?,
      findSome?_congr_of_mem hmembers]

/-! ## Objects that are alike -/

/-- Two steps give related results when the first ones do and the second ones do for related
results. -/
theorem optionRel_bind {α β γ δ : Type} {R : α → β → Prop} {S : γ → δ → Prop} {first : Option α}
    {first' : Option β} {second : α → Option γ} {second' : β → Option δ}
    (h : Option.Rel R first first')
    (hsecond : ∀ result result', R result result' → Option.Rel S (second result) (second' result')) :
    Option.Rel S (first.bind second) (first'.bind second') := by
  cases h with
  | none => exact .none
  | some hresult => exact hsecond _ _ hresult

/-- Lists that are related member by member are read as lists that are. -/
theorem optionRel_mapM {α β γ δ : Type} {R : α → β → Prop} {S : γ → δ → Prop}
    {read : α → Option γ} {read' : β → Option δ} {list : List α} {list' : List β}
    (h : List.Forall₂ R list list')
    (hread : ∀ member member', R member member' → Option.Rel S (read member) (read' member')) :
    Option.Rel (List.Forall₂ S) (list.mapM read) (list'.mapM read') := by
  induction h with
  | nil => exact .some .nil
  | cons hmember _ ih =>
    rw [List.mapM_cons, List.mapM_cons]
    refine optionRel_bind (hread _ _ hmember) fun result result' hresult => ?_
    exact optionRel_bind ih fun results results' hresults => .some (.cons hresult hresults)

/-- Members that have the same name, and documents that are related. -/
def SameName {ν : Type} (R : Node → Node → Prop) (member member' : ν × Node) : Prop :=
  member.1 = member'.1 ∧ R member.2 member'.2

/-- Documents that are the same, or objects whose members have the same names, one by one, and
documents that are related. -/
inductive Node.Alike (R : Node → Node → Prop) : Node → Node → Prop where
  | refl (node : Node) : Alike R node node
  | object {members members' : List (Quoted × Node)}
    (h : List.Forall₂ (SameName R) members members') : Alike R (.object members) (.object members')

section Alike

variable {R : Node → Node → Prop}

/-- A field is looked up by its names, so that it is found in both objects or in none. -/
theorem field?_sameName {members members' : List (String × Node)}
    (h : List.Forall₂ (SameName R) members members') (names : List String) :
    Option.Rel (Option.Rel R) (field? members names) (field? members' names) := by
  have hfilter : List.Forall₂ (SameName R) (members.filter fun member => names.contains member.1)
      (members'.filter fun member => names.contains member.1) := by
    refine List.rel_filter ?_ h
    rintro member member' ⟨hname, -⟩
    show names.contains member.1 = true ↔ names.contains member'.1 = true
    rw [hname]
  unfold field?
  generalize members.filter _ = found at hfilter
  generalize members'.filter _ = found' at hfilter
  cases hfilter with
  | nil => exact .some .none
  | cons hmember hrest =>
    cases hrest with
    | nil => exact .some (.some hmember.2)
    | cons _ _ => exact .none

/-- **The fields of documents that are alike** are related one by one. -/
theorem fields?_alike (hrefl : ∀ node, R node node) {node node' : Node} (h : Node.Alike R node node')
    (fields : List (List String)) :
    Option.Rel (List.Forall₂ (Option.Rel R)) (fields? fields node) (fields? fields node') := by
  have hsame (field : Option Node) : Option.Rel R field field := by
    cases field with
    | none => exact .none
    | some node => exact .some (hrefl node)
  cases h with
  | refl =>
    cases fields? fields node with
    | none => exact .none
    | some found => exact .some (List.forall₂_same.2 fun field _ => hsame field)
  | object hmembers =>
    rw [fields?, fields?]
    refine optionRel_bind (optionRel_mapM (S := SameName R) hmembers ?_) ?_
    · rintro ⟨label, member⟩ ⟨label', member'⟩ ⟨hlabel, hmember⟩
      cases hlabel
      dsimp only
      cases label.text? with
      | none => exact .none
      | some name => exact .some ⟨rfl, hmember⟩
    · intro named named' hnamed
      have hfields : List.Forall₂ Eq fields fields := List.forall₂_same.2 fun _ _ => rfl
      refine optionRel_mapM hfields ?_
      rintro names _ rfl
      exact field?_sameName hnamed names

/-- A field that may be missing is read alike when documents that are alike are. -/
theorem map_optional?_alike {α β : Type} {read : Reader α} {depth : Nat} {normal : α → β}
    (hread : ∀ node node', Node.Alike R node node' →
      (read depth node).map normal = (read depth node').map normal)
    {field field' : Option Node} (h : Option.Rel (Node.Alike R) field field') :
    (optional? read depth field).map (Option.map normal)
      = (optional? read depth field').map (Option.map normal) := by
  cases h with
  | none => rfl
  | some halike =>
    cases halike with
    | refl => rfl
    | object hmembers =>
      have heq := congrArg (Option.map some) (hread _ _ (.object hmembers))
      rw [Option.map_map, Option.map_map] at heq
      show ((read depth _).map some).map _ = ((read depth _).map some).map _
      rw [Option.map_map, Option.map_map]
      exact heq

/-- A text is no object. -/
theorem optional?_string?_alike {depth : Nat} {field field' : Option Node}
    (h : Option.Rel (Node.Alike R) field field') :
    optional? string? depth field = optional? string? depth field' := by
  cases h with
  | none => rfl
  | some halike =>
    cases halike with
    | refl => rfl
    | object _ => rfl

/-- The first fault of objects that are alike is the same when the fields find the same faults. -/
theorem namedCause?_sameName {fields : List Field} {depth : Nat}
    (hfields : ∀ field ∈ fields, ∀ node node', R node node' →
      field.cause? depth node = field.cause? depth node')
    {members members' : List (Quoted × Node)} (h : List.Forall₂ (SameName R) members members')
    (seen : List String) :
    namedCause? fields depth seen members = namedCause? fields depth seen members' := by
  induction h generalizing seen with
  | nil => rfl
  | @cons member member' members members' hmember _ ih =>
    obtain ⟨label, node⟩ := member
    obtain ⟨label', node'⟩ := member'
    obtain ⟨hlabel, hnode⟩ := hmember
    cases hlabel
    rw [namedCause?, namedCause?]
    cases label.text? with
    | none => rfl
    | some name =>
      cases hfind : fields.find? fun field => field.names.contains name with
      | none => simp only [hfind, ih]
      | some field =>
        simp only [hfind, ih, hfields field (List.mem_of_find?_eq_some hfind) node node' hnode]

/-- **The first fault of records that are alike** is the same when the fields find the same faults. -/
theorem recordCause?_alike {fields : List Field} {depth : Nat}
    (hfields : ∀ field ∈ fields, ∀ node node', R node node' →
      field.cause? depth node = field.cause? depth node')
    (kind : String) {node node' : Node} (h : Node.Alike R node node') :
    recordCause? kind fields (depth + 1) node = recordCause? kind fields (depth + 1) node' := by
  cases h with
  | refl => rfl
  | object hmembers => exact namedCause?_sameName hfields hmembers []

/-- A text is no object, so that the same is wrong with both of two that are alike. -/
theorem optionalCause?_stringCause?_alike {depth : Nat} {node node' : Node}
    (h : Node.Alike R node node') :
    optionalCause? stringCause? depth node = optionalCause? stringCause? depth node' := by
  cases h with
  | refl => rfl
  | object _ => rfl

/-- What may be null instead is diagnosed alike when documents that are alike are. -/
theorem optionalCause?_alike {cause? : Diagnosis} {depth : Nat} {node node' : Node}
    (hcause : cause? depth node = cause? depth node') (h : Node.Alike R node node') :
    optionalCause? cause? depth node = optionalCause? cause? depth node' := by
  cases h with
  | refl => rfl
  | object _ => exact hcause

end Alike

/-- A place for a member among those of an object. -/
structure Node.Place where
  before : List (Quoted × Node)
  name : Quoted
  after : List (Quoted × Node)

/-- The object with a document in the place. -/
def Node.Place.fill (place : Node.Place) (node : Node) : Node :=
  .object (place.before ++ (place.name, node) :: place.after)

/-- Related documents in one place make objects alike. -/
theorem Node.Place.alike_fill {R : Node → Node → Prop} (hrefl : ∀ node, R node node)
    (place : Node.Place) {node node' : Node} (h : R node node') :
    Node.Alike R (place.fill node) (place.fill node') := by
  have hsame (members : List (Quoted × Node)) : List.Forall₂ (SameName R) members members :=
    List.forall₂_same.2 fun member _ => ⟨rfl, hrefl member.2⟩
  exact .object (List.rel_append (hsame place.before) (.cons ⟨rfl, h⟩ (hsame place.after)))

/-- The document of a field is that of a member. -/
theorem exists_member_of_fields? {fields : List (List String)} {members : List (Quoted × Node)}
    {found : List (Option Node)} (h : fields? fields (.object members) = some found) :
    ∀ node, some node ∈ found → ∃ member ∈ members, member.2 = node := by
  intro node hnode
  rw [fields?, Option.bind_eq_bind, Option.bind_eq_some_iff] at h
  obtain ⟨named, hnamed, hfound⟩ := h
  obtain ⟨names, -, hfield⟩ := exists_mem_of_mapM hfound _ hnode
  have hmem : ∃ member ∈ named, member.2 = node := by
    rw [field?] at hfield
    split at hfield
    · cases hfield
    · next member hfilter =>
      cases hfield
      exact ⟨member, (List.mem_filter.1 (hfilter ▸ List.mem_singleton_self member)).1, rfl⟩
    · cases hfield
  obtain ⟨member, hmember, rfl⟩ := hmem
  obtain ⟨written, hwritten, hread⟩ := exists_mem_of_mapM hnamed member hmember
  obtain ⟨name, -, rfl⟩ := Option.map_eq_some_iff.1 hread
  exact ⟨written, hwritten, rfl⟩

/-- A document that is left alone, or an object that becomes the array of it alone. The object is
nested at most to the given depth. -/
inductive Node.Collapses (depth : Nat) : Node → Node → Prop where
  | refl (node : Node) : Collapses depth node node
  | single {members : List (Quoted × Node)} (h : (Node.object members).depth ≤ depth) :
    Collapses depth (.object members) (.array [.object members])

/-- Documents are alike where one of them holds an object and the other one the array of it alone. -/
theorem Node.Place.alike_single_record (outer inner : Node.Place) {members : List (Quoted × Node)}
    (hdepth : (Node.object members).depth + 3 ≤ maxDepth) :
    ∃ depth, maxDepth = depth + 3 ∧ Node.Alike (Node.Alike (Node.Collapses depth))
      (outer.fill (inner.fill (.object members)))
      (outer.fill (inner.fill (.array [.object members]))) := by
  obtain ⟨spare, hspare⟩ := Nat.exists_eq_add_of_le' hdepth
  have hsingle : Node.Collapses ((Node.object members).depth + spare) (.object members)
      (.array [.object members]) := .single (Nat.le_add_right _ _)
  exact ⟨_, by omega, outer.alike_fill .refl (inner.alike_fill .refl hsingle)⟩

end Json

open Json

/-! ## Records -/

/-- A record does not depend on how many levels are left, if there are enough of them. -/
theorem Record.read?_eq_of_depth_le {depth depth' : Nat} {members : List (Quoted × Node)}
    (h : (Node.object members).depth ≤ depth) (h' : (Node.object members).depth ≤ depth') :
    Record.read? depth (.object members) = Record.read? depth' (.object members) := by
  have hstring (depth depth' : Nat) (field : Option Node) :
      orDefault? "" string? depth field = orDefault? "" string? depth' field := by
    rcases field with _ | _ | _ | _ | _ | _ | _ <;> rfl
  have hpos := Node.depth_object_pos members
  obtain ⟨depth, rfl⟩ := Nat.exists_eq_add_one.2 (Nat.lt_of_lt_of_le hpos h)
  obtain ⟨depth', rfl⟩ := Nat.exists_eq_add_one.2 (Nat.lt_of_lt_of_le hpos h')
  rw [read?, read?]
  cases hfields : fields? [["column"], ["relation"], ["value"]] (.object members) with
  | none => rfl
  | some fields =>
    have hvalue : ∀ field ∈ fields,
        orDefault? .null value? depth field = orDefault? .null value? depth' field := by
      intro field hfield
      cases field with
      | none => rfl
      | some node =>
        obtain ⟨member, hmember, rfl⟩ := exists_member_of_fields? hfields node hfield
        have hlt := Node.depth_lt_of_mem_members hmember
        exact goesByParts_value.eq_of_depth_le (by omega) (by omega)
    simp only [Option.bind_eq_bind, Option.bind_some]
    split
    · next column relation value =>
      rw [hstring depth depth' column, hstring depth depth' relation, hvalue value (by simp)]
    · rfl

/-- **A single record and a list of one** are read alike.

**Proof sketch.** An object is no array, so that it is read as a record, and so is the one in the
array, with a level less. If it cannot be read, then the array is tried as a record, but its first
item is an object and no column. -/
theorem Records.toList_read?_collapses {depth : Nat} {node node' : Node}
    (h : Node.Collapses depth node node') :
    (Records.read? (depth + 1) node).map toList = (Records.read? (depth + 1) node').map toList := by
  cases h with
  | refl => rfl
  | @single members h =>
    have hvalue : value? (depth + 1) (.object members) = value? depth (.object members) :=
      goesByParts_value.eq_of_depth_le (by omega) h
    have hrecord : Record.read? (depth + 1) (.object members) = Record.read? depth (.object members) :=
      Record.read?_eq_of_depth_le (by omega) h
    have hcolumn : Record.read? (depth + 1) (.array [.object members]) = none := by
      rfl
    have hitems : (value? (depth + 1) (.array [.object members])).isSome
        = (value? depth (.object members)).isSome := by
      rw [value?, items?_eq_mapM, List.mapM_cons, List.mapM_nil]
      cases value? depth (.object members) <;> rfl
    have hlist : list? Record.read? (depth + 1) (.array [.object members])
        = (Record.read? depth (.object members)).map fun record => [record] := by
      rw [list?, List.mapM_cons, List.mapM_nil]
      cases Record.read? depth (.object members) <;> rfl
    have hnone : list? Record.read? (depth + 1) (.object members) = none := rfl
    rw [read?, read?, hnone, hlist, hcolumn, hitems, hvalue, hrecord]
    split
    · cases Record.read? depth (.object members) <;> rfl
    · rfl

/-- The holders of records are read alike when the records in them are. -/
theorem Records.toList_readHolder?_alike {depth : Nat} {node node' : Node}
    (h : Node.Alike (Node.Collapses depth) node node') :
    (Records.readHolder? (depth + 2) node).map toList
      = (Records.readHolder? (depth + 2) node').map toList := by
  have hfields := fields?_alike .refl h [["keyword"]]
  rw [readHolder?, readHolder?]
  generalize fields? [["keyword"]] node = found at hfields
  generalize fields? [["keyword"]] node' = found' at hfields
  rcases hfields with hfields | _
  · rcases hfields with _ | ⟨hkeyword, _ | _⟩
    · rfl
    · rcases hkeyword with hkeyword | _
      · exact toList_read?_collapses hkeyword
      · rfl
    · rfl
  · rfl

/-- The same is wrong with a single record and with a list of one. -/
theorem Records.cause?_collapses {depth : Nat} {node node' : Node}
    (h : Node.Collapses depth node node') : cause? (depth + 1) node = cause? (depth + 1) node' := by
  have hread : (read? (depth + 1) node).isSome = (read? (depth + 1) node').isSome := by
    have hlist := congrArg Option.isSome (toList_read?_collapses h)
    rwa [Option.isSome_map, Option.isSome_map] at hlist
  cases h with
  | refl => rfl
  | @single members h =>
    have hvalue : valueCause? (depth + 1) (.object members) = valueCause? depth (.object members) :=
      goesByParts_valueCause.eq_of_depth_le (by omega) h
    have hitems : valueCause? (depth + 1) (.array [.object members])
        = valueCause? depth (.object members) := by
      rw [valueCause?, itemsCause?, itemsCause?, Option.or_none]
    rw [cause?, cause?, hread, hvalue, hitems]

/-- The same is wrong with the holders of records when the same is wrong with the records in them. -/
theorem Records.holderCause?_alike {depth : Nat} {node node' : Node}
    (h : Node.Alike (Node.Collapses depth) node node') :
    holderCause? (depth + 2) node = holderCause? (depth + 2) node' := by
  refine recordCause?_alike ?_ _ h
  intro field hfield node node' hnode
  rw [List.mem_singleton.1 hfield]
  exact cause?_collapses hnode

/-! ## Saved filters -/

namespace SavedFilter

/-- A saved filter with its records as a list. -/
def listed (saved : SavedFilter) : SavedFilter :=
  { saved with keywords := saved.keywords.map fun records => .many records.toList }

/-- Of the records only the list of them is left. -/
theorem bind_map_listed (id kind name term : Option String) (keywords : Option (Option Records)) :
    (keywords.bind fun keywords => (some (mk id kind name term keywords)).map listed)
      = (keywords.map (Option.map Records.toList)).map fun lists =>
          ⟨id, kind, name, term, lists.map .many⟩ := by
  rcases keywords with _ | _ | _ <;> rfl

/-- **Saved filters are read alike**, apart from how they hold their records. -/
theorem listed_read?_alike {depth : Nat} {node node' : Node}
    (h : Node.Alike (Node.Alike (Node.Collapses depth)) node node') :
    (read? (depth + 3) node).map listed = (read? (depth + 3) node').map listed := by
  have hfields := fields?_alike .refl h fieldNames
  rw [read?, read?]
  generalize fields? fieldNames node = found at hfields
  generalize fields? fieldNames node' = found' at hfields
  rcases hfields with hfields | _
  · rcases hfields with _ | ⟨hid, _ | ⟨hkind, _ | ⟨hname, _ | ⟨hterm, _ | ⟨hkeywords, _ | _⟩⟩⟩⟩⟩
    case some.cons.cons.cons.cons.cons.nil =>
      have hholder := map_optional?_alike (fun _ _ => Records.toList_readHolder?_alike) hkeywords
      simp only [Option.bind_eq_bind, Option.bind_some, optional?_string?_alike hid,
        optional?_string?_alike hkind, optional?_string?_alike hname,
        optional?_string?_alike hterm, Option.map_bind, Function.comp_def, bind_map_listed, hholder]
    all_goals rfl
  · rfl

/-- **The same is wrong with saved filters**, apart from how they hold their records. -/
theorem cause?_alike {depth : Nat} {node node' : Node}
    (h : Node.Alike (Node.Alike (Node.Collapses depth)) node node') :
    cause? (depth + 3) node = cause? (depth + 3) node' := by
  refine recordCause?_alike ?_ _ h
  intro field hfield node node' hnode
  simp only [fields, List.mem_cons, List.not_mem_nil, or_false] at hfield
  rcases hfield with rfl | rfl | rfl | rfl | rfl
  · exact optionalCause?_stringCause?_alike hnode
  · exact optionalCause?_stringCause?_alike hnode
  · exact optionalCause?_stringCause?_alike hnode
  · exact optionalCause?_stringCause?_alike hnode
  · exact optionalCause?_alike (Records.holderCause?_alike hnode) hnode

end SavedFilter

namespace Filter

/-- It does not matter how a saved filter holds its records. -/
theorem ofSaved_listed (saved : SavedFilter) : ofSaved saved.listed = ofSaved saved := by
  obtain ⟨id, kind, name, term, keywords⟩ := saved
  cases keywords with
  | none => rfl
  | some records => rfl

/-- The filter that a JSON text saves is that of what is decoded from it. -/
theorem ofJson_eq_ofSaved {source : String} {saved : SavedFilter}
    (h : decode? SavedFilter.read? source = some saved) : ofJson source = ofSaved saved := by
  rw [ofJson, SavedFilter.ofJson, h]
  rfl

/-- A text from which the same saved filter is decoded, but for how it holds its records, gives the same
filter. -/
theorem ofJson_eq_ofSaved_of_listed {source : String} {saved : SavedFilter}
    (h : (decode? SavedFilter.read? source).map SavedFilter.listed = some saved.listed) :
    ofJson source = ofSaved saved := by
  obtain ⟨decoded, hread, hsame⟩ := Option.map_eq_some_iff.1 h
  rw [ofJson_eq_ofSaved hread, ← ofSaved_listed decoded, hsame, ofSaved_listed]

/-- A text fails with the cause of its document. -/
theorem ofJson_eq_malformed {source : String} {node : Node} {cause : Cause}
    (hnode : Node.ofText? source = some node) (hcause : SavedFilter.cause? maxDepth node = some cause) :
    ofJson source = .error (.malformed ⟨.savedFilter, source, some cause⟩) := by
  rw [ofJson, SavedFilter.ofJson_eq_error_iff.2 (.inr ⟨node, cause, hnode, hcause, rfl⟩)]
  rfl

/-- What goes wrong with a saved filter that could be decoded is no fault of decoding. -/
theorem ofSaved_ne_malformed (saved : SavedFilter) (fault : DecodeFault) :
    ofSaved saved ≠ .error (.malformed fault) := by
  intro h
  cases hrecords : saved.keywords with
  | none =>
    rw [ofSaved, SavedFilter.hasKeywords, hrecords] at h
    cases h
  | some records =>
    obtain ⟨_, _, _, -, -, hfails⟩ := (ofSaved_eq_error_iff hrecords).1 h
    cases hfails

/-- **A single record for a list of one.** Two texts write the same saved filter, except that in one of
them an object stands where the other one has the array of that object alone, and that place is the
one of the records or any other one among the members of a member. The object may be any one for
which there are enough levels in the array, right as a record or not. Then one of three things holds.

* Both texts give the same filter.
* Both can be decoded and fail with the same error, which says nothing about the text.
* Neither can be decoded, and the same is wrong with both. The two messages agree, except that each
  ends with the place in its own text. -/
theorem ofJson_single_record {outer inner : Node.Place} {members : List (Quoted × Node)}
    (hdepth : (Node.object members).depth + 3 ≤ maxDepth) {source source' : String}
    (hsource : Node.ofText? source = some (outer.fill (inner.fill (.object members))))
    (hsource' : Node.ofText? source' = some (outer.fill (inner.fill (.array [.object members])))) :
    (∃ filter, ofJson source = .ok filter ∧ ofJson source' = .ok filter) ∨
    (∃ error, (∀ fault, error ≠ .malformed fault) ∧
      ofJson source = .error error ∧ ofJson source' = .error error) ∨
    ∃ cause error error', ofJson source = .error error ∧ ofJson source' = .error error' ∧
      error = .malformed ⟨.savedFilter, source, some cause⟩ ∧
      error' = .malformed ⟨.savedFilter, source', some cause⟩ ∧
      ∀ wording,
        let reason := "Failed to decode filter record: " ++ cause.text wording.quote
        error.message wording = reason ++ wording.placeText .savedFilter source ∧
        error'.message wording = reason ++ wording.placeText .savedFilter source' := by
  obtain ⟨depth, hmax, halike⟩ := outer.alike_single_record inner hdepth
  have hlisted : (decode? SavedFilter.read? source).map SavedFilter.listed
      = (decode? SavedFilter.read? source').map SavedFilter.listed := by
    rw [decode?, decode?, hsource, hsource', Option.bind_some, Option.bind_some, hmax]
    exact SavedFilter.listed_read?_alike halike
  have hcause : SavedFilter.cause? maxDepth (outer.fill (inner.fill (.object members)))
      = SavedFilter.cause? maxDepth (outer.fill (inner.fill (.array [.object members]))) := by
    rw [hmax]
    exact SavedFilter.cause?_alike halike
  cases hread : decode? SavedFilter.read? source with
  | some saved =>
    rw [ofJson_eq_ofSaved hread, ofJson_eq_ofSaved_of_listed (hlisted.symm.trans (by rw [hread]; rfl))]
    cases hsaved : ofSaved saved with
    | ok filter => exact .inl ⟨filter, rfl, rfl⟩
    | error error =>
      refine .inr (.inl ⟨error, ?_, rfl, rfl⟩)
      rintro fault rfl
      exact ofSaved_ne_malformed saved fault hsaved
  | none =>
    rcases (decode?_eq_none_iff SavedFilter.diagnoses).1 hread with
      hnode | ⟨node, cause, hnode, hfault⟩
    · rw [hsource] at hnode
      contradiction
    · rw [hsource, Option.some.injEq] at hnode
      rw [← hnode] at hfault
      exact .inr (.inr ⟨cause, _, _, ofJson_eq_malformed hsource hfault,
        ofJson_eq_malformed hsource' (hcause ▸ hfault), rfl, rfl, fun wording =>
          ⟨String.append_assoc.symm, String.append_assoc.symm⟩⟩)

/-- A record with an unknown member and an escape in a name, alone and in a list; and a record whose
column is a number. -/
theorem ofJson_single_record_two :
    let rows := "\x7b\"column\":\"rows\",\"x\":\x7b\x7d,\"v\\u0061lue\":10\x7d"
    let five := "\x7b\"column\":5\x7d"
    let source (records : String) :=
      "\x7b\"_id\":\"7\",\"keywords\":\x7b\"x\":[1], \"keyword\":" ++ records ++ "\x7d\x7d"
    let outer : Node.Place := ⟨[(.ofText "_id", .string (.ofText "7"))], .ofText "keywords", []⟩
    let inner : Node.Place := ⟨[(.ofText "x", .array [.number (.ofInt 1)])], .ofText "keyword", []⟩
    let rowsMembers : List (Quoted × Node) := [(.ofText "column", .string (.ofText "rows")),
      (.ofText "x", .object []), (.char 'v' :: .unit 97 :: Quoted.ofText "lue", .number (.ofInt 10))]
    let fiveMembers : List (Quoted × Node) := [(.ofText "column", .number (.ofInt 5))]
    let filter : Filter := ⟨[.keyed "rows" .equal "10"], some "7", none, none⟩
    (Node.object rowsMembers).depth + 3 ≤ maxDepth ∧
      Node.ofText? (source rows) = some (outer.fill (inner.fill (.object rowsMembers))) ∧
      Node.ofText? (source ("[" ++ rows ++ "]"))
        = some (outer.fill (inner.fill (.array [.object rowsMembers]))) ∧
      ofJson (source rows) = .ok filter ∧ ofJson (source ("[" ++ rows ++ "]")) = .ok filter ∧
      Node.ofText? (source five) = some (outer.fill (inner.fill (.object fiveMembers))) ∧
      Node.ofText? (source ("[" ++ five ++ "]"))
        = some (outer.fill (inner.fill (.array [.object fiveMembers]))) ∧
      ∃ error error', ofJson (source five) = .error error ∧
        ofJson (source ("[" ++ five ++ "]")) = .error error' ∧
        ∀ wording,
          let reason := "Failed to decode filter record: data did not match any variant of untagged enum OneOrMany"
          error.message wording = reason ++ wording.placeText .savedFilter (source five) ∧
          error'.message wording
            = reason ++ wording.placeText .savedFilter (source ("[" ++ five ++ "]")) := by
  intro rows five source outer inner rowsMembers fiveMembers filter
  have hdepth : (Node.object rowsMembers).depth + 3 ≤ maxDepth := by decide
  have hrows : Node.ofText? (source rows) = some (outer.fill (inner.fill (.object rowsMembers))) := by
    refine Node.ofText?_eq_some ?_
    decide +kernel +zetaReduce
  have hrows' : Node.ofText? (source ("[" ++ rows ++ "]"))
      = some (outer.fill (inner.fill (.array [.object rowsMembers]))) := by
    refine Node.ofText?_eq_some ?_
    decide +kernel +zetaReduce
  have hfilter : ofJson (source rows) = .ok filter := by decide +kernel +zetaReduce
  have hfive : Node.ofText? (source five) = some (outer.fill (inner.fill (.object fiveMembers))) := by
    refine Node.ofText?_eq_some ?_
    decide +kernel +zetaReduce
  have hfive' : Node.ofText? (source ("[" ++ five ++ "]"))
      = some (outer.fill (inner.fill (.array [.object fiveMembers]))) := by
    refine Node.ofText?_eq_some ?_
    decide +kernel +zetaReduce
  have herror : ofJson (source five)
      = .error (.malformed ⟨.savedFilter, source five, some (.noVariant "OneOrMany")⟩) :=
    ofJson_eq_malformed hfive (by decide +kernel +zetaReduce)
  refine ⟨hdepth, hrows, hrows', hfilter, ?_, hfive, hfive', ?_⟩
  · rcases ofJson_single_record hdepth hrows hrows' with
      ⟨_, hok, hok'⟩ | ⟨_, -, hfail, -⟩ | ⟨_, _, _, hfail, -⟩
    · rw [hfilter] at hok
      rw [hok', hok]
    · rw [hfilter] at hfail
      cases hfail
    · rw [hfilter] at hfail
      cases hfail
  · rcases ofJson_single_record (by decide) hfive hfive' with
      ⟨_, hok, -⟩ | ⟨_, hno, hfail, -⟩ | ⟨cause, error, error', hfail, hfail', rfl, rfl, hmessage⟩
    · rw [herror] at hok
      cases hok
    · rw [herror] at hfail
      cases hfail
      exact absurd rfl (hno _)
    · rw [herror] at hfail
      cases hfail
      exact ⟨_, _, herror, hfail', hmessage⟩

/-- The places are not the same. Where a wrong record is noticed is the brace after it, and a list moves
that brace by its two brackets. -/
theorem ofJson_single_record_places :
    let five : List (Quoted × Node) := [(.ofText "column", .number (.ofInt 5))]
    let outer : Node.Place := ⟨[], .ofText "keywords", []⟩
    let inner : Node.Place := ⟨[], .ofText "keyword", []⟩
    let source := "\x7b\"keywords\":\x7b\"keyword\":\x7b\"column\":5\x7d\x7d\x7d"
    let source' := "\x7b\"keywords\":\x7b\"keyword\":[\x7b\"column\":5\x7d]\x7d\x7d"
    let wording : Wording :=
      { quote := fun text => "\"" ++ text ++ "\""
        syntaxError := fun _ _ => "expected value at line 1 column 1"
        place := fun _ source => (1, source.length - 1)
        missingFile := "No such file or directory (os error 2)" }
    let reason := "Failed to decode filter record: data did not match any variant of untagged enum OneOrMany"
    (Node.object five).depth + 3 ≤ maxDepth ∧
      Node.ofText? source = some (outer.fill (inner.fill (.object five))) ∧
      Node.ofText? source' = some (outer.fill (inner.fill (.array [.object five]))) ∧
      ∃ error error', ofJson source = .error error ∧ ofJson source' = .error error' ∧
        error.message wording = reason ++ " at line 1 column 36" ∧
        error'.message wording = reason ++ " at line 1 column 38" ∧
        error.message wording ≠ error'.message wording := by
  intro five outer inner source source' wording reason
  have hdepth : (Node.object five).depth + 3 ≤ maxDepth := by decide
  have hnode : Node.ofText? source = some (outer.fill (inner.fill (.object five))) :=
    Node.ofText?_eq_some (by decide +kernel +zetaReduce)
  have hnode' : Node.ofText? source' = some (outer.fill (inner.fill (.array [.object five]))) :=
    Node.ofText?_eq_some (by decide +kernel +zetaReduce)
  have herror : ofJson source
      = .error (.malformed ⟨.savedFilter, source, some (.noVariant "OneOrMany")⟩) :=
    ofJson_eq_malformed hnode (by decide +kernel +zetaReduce)
  have herror' : ofJson source'
      = .error (.malformed ⟨.savedFilter, source', some (.noVariant "OneOrMany")⟩) :=
    ofJson_eq_malformed hnode' (by decide +kernel +zetaReduce)
  refine ⟨hdepth, hnode, hnode', _, _, herror, herror', ?_, ?_, ?_⟩
  · decide +kernel +zetaReduce
  · decide +kernel +zetaReduce
  · decide +kernel +zetaReduce

end Filter

end QueryFilter
