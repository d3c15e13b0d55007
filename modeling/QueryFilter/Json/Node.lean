import QueryFilter.Json.Token

set_option relaxedAutoImplicit false
set_option autoImplicit false

/-!
# JSON documents

The structure of a JSON text: arrays and objects as they are written, with the members of an object
in their order and repeated names kept. Nothing in it has been interpreted yet. A document may be
nested to any depth; limits belong to those who read values out of it.

The reader takes one token at a time and keeps the unfinished arrays and objects on a stack, so that
it is a fold over the tokens.

## Main definitions

* `QueryFilter.Json.Node` — documents.
* `QueryFilter.Json.Node.ofTokens?` — the document that a list of tokens writes.
* `QueryFilter.Json.Node.ofText?` — the document that a text writes.
-/

namespace QueryFilter.Json

/-- A JSON document as it is written. -/
inductive Node where
  | null
  | bool (value : Bool)
  | number (literal : Literal)
  | string (quoted : Quoted)
  | array (items : List Node)
  | object (members : List (Quoted × Node))

namespace Node

/-- An unfinished array or object: the parts that are complete, the last one first, and for an
object the name of the member that is being read. -/
inductive Frame where
  | items (before : List Node)
  | members (before : List (Quoted × Node)) (name : Quoted)

/-- What may come next. -/
inductive State where
  /-- A value. -/
  | value (outer : List Frame)
  /-- The first item of an array, or its end. -/
  | item (outer : List Frame)
  /-- The name of a member, or the end of an object without members. -/
  | name (before : List (Quoted × Node)) (outer : List Frame)
  /-- The colon after a name. -/
  | colon (before : List (Quoted × Node)) (name : Quoted) (outer : List Frame)
  /-- What follows a finished value. -/
  | after (node : Node) (outer : List Frame)

/-- The state after the first token of a value. -/
def State.open? (outer : List Frame) : Token → Option State
  | .null => some (.after .null outer)
  | .bool flag => some (.after (.bool flag) outer)
  | .number literal => some (.after (.number literal) outer)
  | .string quoted => some (.after (.string quoted) outer)
  | .openArray => some (.item outer)
  | .openObject => some (.name [] outer)
  | _ => none

/-- The state after one more token. -/
def State.step : State → Token → Option State
  | .value outer, token => open? outer token
  | .item outer, .closeArray => some (.after (.array []) outer)
  | .item outer, token => open? (.items [] :: outer) token
  | .name before outer, .string label => some (.colon before label outer)
  | .name [] outer, .closeObject => some (.after (.object []) outer)
  | .name _ _, _ => none
  | .colon before label outer, .colon => some (.value (.members before label :: outer))
  | .colon _ _ _, _ => none
  | .after node (.items before :: outer), .comma => some (.value (.items (node :: before) :: outer))
  | .after node (.items before :: outer), .closeArray =>
    some (.after (.array (node :: before).reverse) outer)
  | .after node (.members before label :: outer), .comma =>
    some (.name ((label, node) :: before) outer)
  | .after node (.members before label :: outer), .closeObject =>
    some (.after (.object ((label, node) :: before).reverse) outer)
  | .after _ _, _ => none

/-- The document at the end of the tokens, where nothing is left unfinished. -/
def State.finish : State → Option Node
  | .after node [] => some node
  | _ => none

/-- The document that a list of tokens writes. -/
def ofTokens? (tokens : List Token) : Option Node :=
  (tokens.foldlM State.step (.value [])).bind State.finish

/-- The document that a text writes. -/
def ofText? (text : String) : Option Node :=
  (Token.scan? text.toList).bind ofTokens?

end Node

end QueryFilter.Json
