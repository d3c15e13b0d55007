import QueryFilter.Json.Decode

set_option relaxedAutoImplicit false
set_option autoImplicit false

/-!
# Why data cannot be read

A document that cannot be read has a first thing that is wrong with it, in the order in which it is
written. Beside every reader there is a diagnosis: it goes through the document in that order and
stops at what the reader cannot take. The cause that it gives does not say where in the text this is.

## Main definitions

* `QueryFilter.Json.Cause` — what is wrong with a document.
* `QueryFilter.Json.Cause.text` — the wording of it.
* `QueryFilter.Json.Diagnosis` — what is the first thing wrong with a document, if there is one.
* `QueryFilter.Json.decodeCause?` — a diagnosis applied to a text.
* `QueryFilter.Json.valueCause?`, `QueryFilter.Json.recordCause?` — the diagnoses of values and of
  records.
-/

namespace QueryFilter.Json

/-! ## Causes -/

/-- What stands where something else is expected. -/
inductive Found where
  | null
  | bool (value : Bool)
  | number (value : Number)
  | string (text : String)
  | sequence
  | map
  deriving DecidableEq

/-- The wording of what was found; texts are written as `quote` has it. -/
def Found.text (quote : String → String) : Found → String
  | null => "null"
  | bool true => "boolean `true`"
  | bool false => "boolean `false`"
  | number (.integer value) => "integer `" ++ String.ofList (Number.integer value).write ++ "`"
  | number (.double negative magnitude) =>
    "floating point `" ++ String.ofList (Number.double negative magnitude).write ++ "`"
  | string text => "string " ++ quote text
  | sequence => "sequence"
  | map => "map"

/-- What is wrong with a document. -/
inductive Cause where
  /-- It is of another kind than is expected. -/
  | invalidType (found : Found) (expected : String)
  /-- It is of the right kind but does not fit. -/
  | invalidValue (found : Found) (expected : String)
  /-- A field is given twice. -/
  | duplicateField (name : String)
  /-- An array has more items than there are fields. -/
  | tooManyItems
  /-- It has none of the forms that it may have. -/
  | noVariant (choice : String)
  /-- A number is too large for double precision. -/
  | numberOutOfRange
  /-- An escaped surrogate comes without the one that opens the pair, or before one that does not close
  it. -/
  | loneSurrogate
  /-- After an escaped surrogate that opens a pair there is no other escape. -/
  | unfinishedPair
  /-- Arrays and objects are nested too deep. -/
  | tooDeep
  deriving DecidableEq

/-- The wording of what is wrong. -/
def Cause.text (quote : String → String) : Cause → String
  | invalidType found expected =>
    "invalid type: " ++ found.text quote ++ ", expected " ++ expected
  | invalidValue found expected =>
    "invalid value: " ++ found.text quote ++ ", expected " ++ expected
  | duplicateField name => "duplicate field `" ++ name ++ "`"
  | tooManyItems => "trailing characters"
  | noVariant choice => "data did not match any variant of untagged enum " ++ choice
  | numberOutOfRange => "number out of range"
  | loneSurrogate => "lone leading surrogate in hex escape"
  | unfinishedPair => "unexpected end of hex escape"
  | tooDeep => "recursion limit exceeded"

/-! ## Strings, numbers and values -/

/-- The first thing wrong with a document in which arrays and objects are to be nested at most to the
given depth; none if it can be read. -/
abbrev Diagnosis := Nat → Node → Option Cause

/-- The first thing wrong with the document that a text writes; none if the text is not JSON. -/
def decodeCause? (cause? : Diagnosis) (text : String) : Option Cause :=
  (Node.ofText? text).bind (cause? maxDepth)

/-- The first escape of a string that cannot be read. -/
def Quoted.cause? : Quoted → Option Cause
  | [] => none
  | .char _ :: rest => cause? rest
  | .unit high :: .unit low :: rest =>
    if isHighSurrogate high then if isLowSurrogate low then cause? rest else some .loneSurrogate
    else if isLowSurrogate high then some .loneSurrogate
    else cause? (.unit low :: rest)
  | .unit code :: rest =>
    if isHighSurrogate code then some .unfinishedPair
    else if isLowSurrogate code then some .loneSurrogate
    else cause? rest

/-- A number has to be within double precision. -/
def numberCause? (literal : Literal) : Option Cause :=
  if (Number.ofLiteral? literal).isSome then none else some .numberOutOfRange

mutual

/-- The diagnosis of any value. -/
def valueCause? : Diagnosis
  | _, .null | _, .bool _ => none
  | _, .number literal => numberCause? literal
  | _, .string quoted => quoted.cause?
  | 0, .array _ | 0, .object _ => some .tooDeep
  | depth + 1, .array items => itemsCause? depth items
  | depth + 1, .object members => membersCause? depth members

/-- The diagnosis of a list of values. -/
def itemsCause? (depth : Nat) : List Node → Option Cause
  | [] => none
  | item :: items => (valueCause? depth item).or (itemsCause? depth items)

/-- The diagnosis of a list of members, where a name comes before what stands under it. -/
def membersCause? (depth : Nat) : List (Quoted × Node) → Option Cause
  | [] => none
  | (name, member) :: members =>
    name.cause?.or ((valueCause? depth member).or (membersCause? depth members))

end

/-- A document of another kind than is expected. A string or a number has to be read before it can be
told what was found. -/
def kindCause? (expected : String) : Node → Option Cause
  | .null => some (.invalidType .null expected)
  | .bool value => some (.invalidType (.bool value) expected)
  | .number literal =>
    match Number.ofLiteral? literal with
    | some number => some (.invalidType (.number number) expected)
    | none => some .numberOutOfRange
  | .string quoted =>
    match quoted.text? with
    | some text => some (.invalidType (.string text) expected)
    | none => quoted.cause?
  | .array _ => some (.invalidType .sequence expected)
  | .object _ => some (.invalidType .map expected)

/-- The diagnosis of a string. -/
def stringCause? : Diagnosis
  | _, .string quoted => quoted.cause?
  | _, node => kindCause? "a string" node

/-- The diagnosis of an integer of 64 bits. -/
def int64Cause? : Diagnosis
  | _, .number literal =>
    match Number.ofLiteral? literal with
    | some (.integer n) =>
      if (Text.Decimal.ofInt64? n).isSome then none
      else some (.invalidValue (.number (.integer n)) "i64")
    | _ => kindCause? "i64" (.number literal)
  | _, node => kindCause? "i64" node

/-- The diagnosis of an array of things. -/
def listCause? (cause? : Diagnosis) : Diagnosis
  | 0, .array _ => some .tooDeep
  | depth + 1, .array items => items.findSome? (cause? depth)
  | _, node => kindCause? "a sequence" node

/-- The diagnosis of what may be null instead. -/
def optionalCause? (cause? : Diagnosis) : Diagnosis
  | _, .null => none
  | depth, node => cause? depth node

/-! ## Records -/

/-- A field of a record: its name, the other names that it goes by, and the diagnosis of what it holds.
-/
structure Field where
  name : String
  aliases : List String
  cause? : Diagnosis

/-- All names of a field. -/
def Field.names (field : Field) : List String :=
  field.name :: field.aliases

/-- The diagnosis of an array that lists the fields of a record. -/
def listedCause? (depth : Nat) : List Field → List Node → Option Cause
  | _, [] => none
  | [], _ :: _ => some .tooManyItems
  | field :: fields, item :: items => (field.cause? depth item).or (listedCause? depth fields items)

/-- The diagnosis of the members of an object that names the fields of a record, after the fields that
were seen before. -/
def namedCause? (fields : List Field) (depth : Nat) : List String → List (Quoted × Node) → Option Cause
  | _, [] => none
  | seen, (label, member) :: members =>
    match label.text? with
    | none => label.cause?
    | some name =>
      match fields.find? fun field => field.names.contains name with
      | none => namedCause? fields depth seen members
      | some field =>
        if seen.contains field.name then some (.duplicateField field.name)
        else (field.cause? depth member).or (namedCause? fields depth (field.name :: seen) members)

/-- The diagnosis of a record. -/
def recordCause? (kind : String) (fields : List Field) : Diagnosis
  | 0, .array _ | 0, .object _ => some .tooDeep
  | depth + 1, .array items => listedCause? depth fields items
  | depth + 1, .object members => namedCause? fields depth [] members
  | _, node => kindCause? ("struct " ++ kind) node

end QueryFilter.Json
