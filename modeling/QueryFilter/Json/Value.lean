import QueryFilter.Json.Number

set_option relaxedAutoImplicit false
set_option autoImplicit false

/-!
# JSON values

Values and their text. The members of an object stand in a list, and they are written in its order.
Arrays and objects are written either without any blanks or over several lines; the layout says
which blanks go where.

## Main definitions

* `QueryFilter.Json.Value` — the values, with decidable equality.
* `QueryFilter.Json.Layout` — where blanks are put.
* `QueryFilter.Json.Value.write` — the text of a value in a layout.
* `QueryFilter.Json.Value.compact`, `QueryFilter.Json.Value.pretty` — the two texts in use.
-/

namespace QueryFilter.Json

/-- A JSON value. -/
inductive Value where
  | null
  | bool (value : Bool)
  | number (value : Number)
  | string (value : String)
  | array (items : List Value)
  | object (members : List (String × Value))

namespace Value

/-! ## Equality -/

mutual

/-- Decides whether two values are equal. -/
def decEq : (x y : Value) → Decidable (x = y)
  | .null, y =>
    match y with
    | .null => .isTrue rfl
    | .bool _ | .number _ | .string _ | .array _ | .object _ => .isFalse (by simp)
  | .bool a, y =>
    match y with
    | .bool b => if h : a = b then .isTrue (by rw [h]) else .isFalse (by simp [h])
    | .null | .number _ | .string _ | .array _ | .object _ => .isFalse (by simp)
  | .number a, y =>
    match y with
    | .number b => if h : a = b then .isTrue (by rw [h]) else .isFalse (by simp [h])
    | .null | .bool _ | .string _ | .array _ | .object _ => .isFalse (by simp)
  | .string a, y =>
    match y with
    | .string b => if h : a = b then .isTrue (by rw [h]) else .isFalse (by simp [h])
    | .null | .bool _ | .number _ | .array _ | .object _ => .isFalse (by simp)
  | .array xs, y =>
    match y with
    | .array ys =>
      match decEqItems xs ys with
      | .isTrue h => .isTrue (by rw [h])
      | .isFalse h => .isFalse (by simp [h])
    | .null | .bool _ | .number _ | .string _ | .object _ => .isFalse (by simp)
  | .object xs, y =>
    match y with
    | .object ys =>
      match decEqMembers xs ys with
      | .isTrue h => .isTrue (by rw [h])
      | .isFalse h => .isFalse (by simp [h])
    | .null | .bool _ | .number _ | .string _ | .array _ => .isFalse (by simp)

/-- Decides whether two lists of values are equal. -/
def decEqItems : (xs ys : List Value) → Decidable (xs = ys)
  | [], [] => .isTrue rfl
  | [], _ :: _ | _ :: _, [] => .isFalse (by simp)
  | x :: xs, y :: ys =>
    match decEq x y, decEqItems xs ys with
    | .isTrue h, .isTrue hs => .isTrue (by rw [h, hs])
    | .isFalse h, _ => .isFalse (by simp [h])
    | _, .isFalse hs => .isFalse (by simp [hs])

/-- Decides whether two lists of members are equal. -/
def decEqMembers : (xs ys : List (String × Value)) → Decidable (xs = ys)
  | [], [] => .isTrue rfl
  | [], _ :: _ | _ :: _, [] => .isFalse (by simp)
  | (k, x) :: xs, (l, y) :: ys =>
    match decEq x y, decEqMembers xs ys with
    | .isTrue h, .isTrue hs =>
      if hk : k = l then .isTrue (by rw [h, hs, hk]) else .isFalse (by simp [hk])
    | .isFalse h, _ => .isFalse (by simp [h])
    | _, .isFalse hs => .isFalse (by simp [hs])

end

instance : DecidableEq Value := decEq

instance : Inhabited Value := ⟨null⟩

/-! ## Building values -/

/-- A text, or null where there is none. -/
def ofString? : Option String → Value
  | none => null
  | some text => string text

/-- An integer of 64 bits. -/
def ofInt64 (n : Int64) : Value :=
  number (.integer n.toInt)

/-! ## Objects by name -/

/-- Puts a member into a list of members in the order of their names; it takes the place of one with
the same name. Names are ordered by the code points of their characters. -/
def insertMember (name : String) (value : Value) : List (String × Value) → List (String × Value)
  | [] => [(name, value)]
  | (other, present) :: rest =>
    if name < other then (name, value) :: (other, present) :: rest
    else if name = other then (name, value) :: rest
    else (other, present) :: insertMember name value rest

/-- An object with its members in the order of their names; of several with one name the last stays.
-/
def ofMembers (members : List (String × Value)) : Value :=
  object (members.foldl (fun sorted (name, value) => insertMember name value sorted) [])

end Value

/-! ## Writing -/

/-- The digit of a number below sixteen, with lower case letters. -/
def hexDigit (n : Nat) : Char :=
  Nat.digitChar n

/-- The text of a character in a string. Quotes, backslashes and control characters are escaped, the
latter with a short escape where there is one. -/
def escape (c : Char) : List Char :=
  if c = '"' then ['\\', '"']
  else if c = '\\' then ['\\', '\\']
  else if c = '\x08' then ['\\', 'b']
  else if c = '\t' then ['\\', 't']
  else if c = '\n' then ['\\', 'n']
  else if c = '\x0c' then ['\\', 'f']
  else if c = '\r' then ['\\', 'r']
  else if c.toNat < 0x20 then
    ['\\', 'u', '0', '0', hexDigit (c.toNat / 16), hexDigit (c.toNat % 16)]
  else [c]

/-- The text of a string, with its quotes. -/
def writeString (text : String) : List Char :=
  '"' :: text.toList.flatMap escape ++ ['"']

/-- The blanks in front of an item or a closing bracket at a depth, and those after a colon. -/
structure Layout where
  gap : Nat → List Char
  afterColon : List Char

namespace Layout

/-- No blanks. -/
def compact : Layout := ⟨fun _ => [], []⟩

/-- Every item on a line of its own, two spaces further in than what holds it. -/
def pretty : Layout := ⟨fun depth => '\n' :: List.replicate (2 * depth) ' ', [' ']⟩

end Layout

namespace Value

mutual

/-- The text of a value at a depth. An array or object without parts is written without blanks. -/
def write (layout : Layout) (depth : Nat) : Value → List Char
  | null => ['n', 'u', 'l', 'l']
  | bool true => ['t', 'r', 'u', 'e']
  | bool false => ['f', 'a', 'l', 's', 'e']
  | number value => value.write
  | string value => writeString value
  | array [] => ['[', ']']
  | array (item :: items) =>
    '[' :: layout.gap (depth + 1) ++ write layout (depth + 1) item
      ++ writeItems layout (depth + 1) items ++ layout.gap depth ++ [']']
  | object [] => ['\x7b', '\x7d']
  | object ((name, value) :: members) =>
    '\x7b' :: layout.gap (depth + 1) ++ writeString name ++ ':' :: layout.afterColon
      ++ write layout (depth + 1) value ++ writeMembers layout (depth + 1) members
      ++ layout.gap depth ++ ['\x7d']

/-- The text of the items after the first one, with their commas. -/
def writeItems (layout : Layout) (depth : Nat) : List Value → List Char
  | [] => []
  | item :: items =>
    ',' :: layout.gap depth ++ write layout depth item ++ writeItems layout depth items

/-- The text of the members after the first one, with their commas. -/
def writeMembers (layout : Layout) (depth : Nat) : List (String × Value) → List Char
  | [] => []
  | (name, value) :: members =>
    ',' :: layout.gap depth ++ writeString name ++ ':' :: layout.afterColon
      ++ write layout depth value ++ writeMembers layout depth members

end

/-- The text of a value without blanks. -/
def compact (value : Value) : String :=
  String.ofList (value.write .compact 0)

/-- The text of a value over several lines. -/
def pretty (value : Value) : String :=
  String.ofList (value.write .pretty 0)

end Value

end QueryFilter.Json
