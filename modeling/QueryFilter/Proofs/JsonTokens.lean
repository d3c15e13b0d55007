import QueryFilter.Json.Node

set_option relaxedAutoImplicit false
set_option autoImplicit false

/-!
# Documents and their tokens

Every document has exactly one way to be written in tokens, and the reader finds the document again.
Reading keeps the unfinished arrays and objects on a stack; the tokens of a document, wherever a
value may stand, leave the stack as it is and add the document.

## Main definitions

* `QueryFilter.Json.Node.induct` — induction over documents.
* `QueryFilter.Json.Node.tokens` — the tokens of a document.

## Main results

* `QueryFilter.Json.Node.foldlM_step_tokens` — reading the tokens of a document inside others.
* `QueryFilter.Json.Node.ofTokens?_tokens` — the tokens of a document are read as the document.
-/

namespace QueryFilter.Json

/-! ## Folds that can fail -/

section Fold

variable {σ α : Type} {step : σ → α → Option σ} {state next : σ}

/-- A fold goes on from where its first step leads. -/
theorem foldlM_cons_of_eq_some {x : α} (h : step state x = some next) (rest : List α) :
    (x :: rest).foldlM step state = rest.foldlM step next := by
  rw [List.foldlM_cons, h, Option.bind_eq_bind, Option.bind_some]

/-- A fold goes on from where its first part leads. -/
theorem foldlM_append_of_eq_some {first : List α} (h : first.foldlM step state = some next)
    (rest : List α) : (first ++ rest).foldlM step state = rest.foldlM step next := by
  rw [List.foldlM_append, h, Option.bind_eq_bind, Option.bind_some]

end Fold

namespace Node

/-! ## Induction -/

/-- Induction over documents: an array or object may use what holds of all of its parts. -/
@[elab_as_elim, induction_eliminator]
theorem induct {motive : Node → Prop} (null : motive .null)
    (bool : ∀ value, motive (.bool value)) (number : ∀ literal, motive (.number literal))
    (string : ∀ quoted, motive (.string quoted))
    (array : ∀ items, (∀ item ∈ items, motive item) → motive (.array items))
    (object : ∀ members, (∀ member ∈ members, motive member.2) → motive (.object members)) :
    (node : Node) → motive node
  | .null => null
  | .bool value => bool value
  | .number literal => number literal
  | .string quoted => string quoted
  | .array items =>
    array items fun item _ => induct null bool number string array object item
  | .object members =>
    object members fun member _ => induct null bool number string array object member.2
decreasing_by
  · decreasing_tactic
  · next hmember =>
    have hlt := List.sizeOf_lt_of_mem hmember
    have hpair : sizeOf member = 1 + sizeOf member.1 + sizeOf member.2 := rfl
    simp only [Node.object.sizeOf_spec]
    omega

/-! ## Writing in tokens -/

mutual

/-- The tokens of a document. -/
def tokens : Node → List Token
  | null => [.null]
  | bool value => [.bool value]
  | number literal => [.number literal]
  | string quoted => [.string quoted]
  | array [] => [.openArray, .closeArray]
  | array (item :: items) =>
    .openArray :: (tokens item ++ (itemTokens items ++ [.closeArray]))
  | object [] => [.openObject, .closeObject]
  | object ((name, member) :: members) =>
    .openObject :: .string name :: .colon ::
      (tokens member ++ (memberTokens members ++ [.closeObject]))

/-- The tokens of the items after the first one, with their commas. -/
def itemTokens : List Node → List Token
  | [] => []
  | item :: items => .comma :: (tokens item ++ itemTokens items)

/-- The tokens of the members after the first one, with their commas. -/
def memberTokens : List (Quoted × Node) → List Token
  | [] => []
  | (name, member) :: members =>
    .comma :: .string name :: .colon :: (tokens member ++ memberTokens members)

end

/-- The tokens of a document start with one that opens a value. -/
theorem tokens_eq_cons (node : Node) :
    ∃ token rest, node.tokens = token :: rest ∧ token ≠ .closeArray := by
  cases node with
  | null | bool _ | number _ | string _ => exact ⟨_, _, rfl, nofun⟩
  | array items =>
    cases items with
    | nil => exact ⟨_, _, rfl, nofun⟩
    | cons item items => exact ⟨.openArray, _, rfl, nofun⟩
  | object members =>
    cases members with
    | nil => exact ⟨_, _, rfl, nofun⟩
    | cons member members => exact ⟨.openObject, _, rfl, nofun⟩

/-! ## Reading back -/

/-- A token that opens a value does so as well in the place of the first item of an array. -/
theorem step_item {token : Token} (h : token ≠ .closeArray) (outer : List Frame) :
    State.step (.item outer) token = State.step (.value (.items [] :: outer)) token := by
  cases token with
  | closeArray => contradiction
  | openArray | openObject | closeObject | comma | colon | null | bool _ | number _ | string _ => rfl

/-- The tokens of a document are read in the place of the first item of an array like anywhere else.
-/
theorem foldlM_step_item (node : Node) (outer : List Frame) :
    node.tokens.foldlM State.step (.item outer)
      = node.tokens.foldlM State.step (.value (.items [] :: outer)) := by
  obtain ⟨token, rest, htokens, hne⟩ := tokens_eq_cons node
  rw [htokens, List.foldlM_cons, List.foldlM_cons, step_item hne]

/-- A document is read back wherever a value may stand. -/
def ReadsBack (node : Node) : Prop :=
  ∀ outer, node.tokens.foldlM State.step (.value outer) = some (.after node outer)

/-- The items after one that is read already, up to the end of the array. -/
theorem foldlM_step_itemTokens {items : List Node} (h : ∀ item ∈ items, item.ReadsBack)
    (node : Node) (before : List Node) (outer : List Frame) :
    (itemTokens items ++ [Token.closeArray]).foldlM State.step (.after node (.items before :: outer))
      = some (.after (.array ((node :: before).reverse ++ items)) outer) := by
  induction items generalizing node before with
  | nil => rw [List.append_nil]; rfl
  | cons item items ih =>
    rw [List.forall_mem_cons] at h
    have hcomma : State.step (.after node (.items before :: outer)) .comma
        = some (.value (.items (node :: before) :: outer)) := rfl
    rw [itemTokens, List.cons_append, List.append_assoc, foldlM_cons_of_eq_some hcomma,
      foldlM_append_of_eq_some (h.1 _), ih h.2, List.reverse_cons, List.append_assoc,
      List.singleton_append]

/-- The members after one that is read already, up to the end of the object. -/
theorem foldlM_step_memberTokens {members : List (Quoted × Node)}
    (h : ∀ member ∈ members, member.2.ReadsBack) (name : Quoted) (node : Node)
    (before : List (Quoted × Node)) (outer : List Frame) :
    (memberTokens members ++ [Token.closeObject]).foldlM State.step
        (.after node (.members before name :: outer))
      = some (.after (.object (((name, node) :: before).reverse ++ members)) outer) := by
  induction members generalizing name node before with
  | nil => rw [List.append_nil]; rfl
  | cons member members ih =>
    obtain ⟨label, member⟩ := member
    rw [List.forall_mem_cons] at h
    have hname (rest : List Token) :
        (Token.comma :: .string label :: .colon :: rest).foldlM State.step
            (.after node (.members before name :: outer))
          = rest.foldlM State.step (.value (.members ((name, node) :: before) label :: outer)) := rfl
    rw [memberTokens, List.cons_append, List.cons_append, List.cons_append, List.append_assoc, hname,
      foldlM_append_of_eq_some (h.1 _), ih h.2, List.reverse_cons, List.append_assoc,
      List.singleton_append]

/-- **Reading the tokens of a document** adds it to what is read already, wherever a value may stand.

**Proof sketch.** Induction on the document. After the first part of an array or object the others
are read one by one, each between its comma and the next one. -/
theorem foldlM_step_tokens (node : Node) : node.ReadsBack := by
  induction node with
  | null | bool _ | number _ | string _ => exact fun _ => rfl
  | array items ih =>
    intro outer
    cases items with
    | nil => rfl
    | cons item items =>
      rw [List.forall_mem_cons] at ih
      have hopen : State.step (.value outer) .openArray = some (.item outer) := rfl
      have hitem := (foldlM_step_item item outer).trans (ih.1 _)
      rw [tokens, foldlM_cons_of_eq_some hopen, foldlM_append_of_eq_some hitem,
        foldlM_step_itemTokens ih.2]
      rfl
  | object members ih =>
    intro outer
    cases members with
    | nil => rfl
    | cons member members =>
      obtain ⟨name, member⟩ := member
      rw [List.forall_mem_cons] at ih
      have hname (rest : List Token) :
          (Token.openObject :: .string name :: .colon :: rest).foldlM State.step (.value outer)
            = rest.foldlM State.step (.value (.members [] name :: outer)) := rfl
      rw [tokens, hname, foldlM_append_of_eq_some (ih.1 _), foldlM_step_memberTokens ih.2]
      rfl

/-- **The tokens of a document are read as the document.** -/
theorem ofTokens?_tokens (node : Node) : ofTokens? node.tokens = some node := by
  rw [ofTokens?, foldlM_step_tokens]
  rfl

end Node

end QueryFilter.Json
