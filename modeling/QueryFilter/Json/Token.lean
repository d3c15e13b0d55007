set_option relaxedAutoImplicit false
set_option autoImplicit false

/-!
# JSON tokens

The lexical level of JSON. A text is cut into brackets, punctuation, strings and words; a word is a
run of any other characters, and has to be one of the three names or a number. Strings are kept as
they are written, escapes of UTF-16 code units included, because whether these pair up matters only
where the string is read. Numbers are kept as digits for the same reason.

The scanner looks at one character at a time, so that it is a fold over the text.

## Main definitions

* `QueryFilter.Json.Quoted`, `QueryFilter.Json.Quoted.decode?` — a string as written, and its text.
* `QueryFilter.Json.Literal` — a number as written.
* `QueryFilter.Json.Token` — the tokens.
* `QueryFilter.Json.Token.scan?` — the tokens of a text.
-/

namespace QueryFilter.Json

/-! ## Strings -/

/-- One piece of a string as written: a character, or an escaped code unit of UTF-16. -/
inductive Piece where
  | char (c : Char)
  | unit (code : Nat)
  deriving DecidableEq, Repr

/-- A string as written between its quotes. -/
abbrev Quoted := List Piece

namespace Quoted

/-- A code unit that opens a surrogate pair. -/
def isHighSurrogate (code : Nat) : Bool :=
  0xD800 ≤ code && code ≤ 0xDBFF

/-- A code unit that closes a surrogate pair. -/
def isLowSurrogate (code : Nat) : Bool :=
  0xDC00 ≤ code && code ≤ 0xDFFF

/-- The character that a surrogate pair stands for. -/
def pair (high low : Nat) : Char :=
  Char.ofNat (0x10000 + (high - 0xD800) * 0x400 + (low - 0xDC00))

/-- The characters of a string. Escaped surrogates stand in pairs, one directly after the other. -/
def decode? : Quoted → Option (List Char)
  | [] => some []
  | .char c :: rest => (decode? rest).map (c :: ·)
  | .unit high :: .unit low :: rest =>
    if isHighSurrogate high then
      if isLowSurrogate low then (decode? rest).map (pair high low :: ·) else none
    else if isLowSurrogate high then none
    else (decode? (.unit low :: rest)).map (Char.ofNat high :: ·)
  | .unit code :: rest =>
    if isHighSurrogate code || isLowSurrogate code then none
    else (decode? rest).map (Char.ofNat code :: ·)

/-- The text of a string. -/
def text? (quoted : Quoted) : Option String :=
  quoted.decode?.map String.ofList

end Quoted

/-! ## Numbers -/

/-- A number as written: its sign, the digits before and after the point, and the exponent with its
sign. -/
structure Literal where
  negative : Bool
  whole : List Char
  fraction : Option (List Char)
  exponent : Option (Bool × List Char)
  deriving DecidableEq, Repr

namespace Literal

/-- Reads the exponent at the end of a number, if there is one. -/
def exponent? : List Char → Option (Option (Bool × List Char))
  | [] => some none
  | e :: rest =>
    let (negative, digits) :=
      match rest with
      | '-' :: digits => (true, digits)
      | '+' :: digits => (false, digits)
      | digits => (false, digits)
    if (e = 'e' ∨ e = 'E') ∧ digits ≠ [] ∧ digits.all Char.isDigit then
      some (some (negative, digits))
    else
      none

/-- Reads the fraction of a number, if there is one, and its exponent. -/
def fraction? : List Char → Option (Option (List Char) × Option (Bool × List Char))
  | '.' :: rest =>
    let digits := rest.takeWhile Char.isDigit
    if digits = [] then none
    else (exponent? (rest.dropWhile Char.isDigit)).map fun exponent => (some digits, exponent)
  | rest => (exponent? rest).map fun exponent => (none, exponent)

/-- The number that a word writes without its sign: no zero stands in front of other digits. -/
def magnitude? (negative : Bool) (word : List Char) : Option Literal :=
  let digits := word.takeWhile Char.isDigit
  if digits = [] ∨ (digits.head? = some '0' ∧ digits ≠ ['0']) then none
  else (fraction? (word.dropWhile Char.isDigit)).map fun (fraction, exponent) =>
    ⟨negative, digits, fraction, exponent⟩

/-- The number that a word writes. -/
def ofWord? : List Char → Option Literal
  | '-' :: word => magnitude? true word
  | word => magnitude? false word

end Literal

/-! ## Tokens -/

/-- The tokens of JSON. -/
inductive Token where
  | openArray
  | closeArray
  | openObject
  | closeObject
  | comma
  | colon
  | null
  | bool (value : Bool)
  | number (literal : Literal)
  | string (quoted : Quoted)
  deriving DecidableEq, Repr

namespace Token

/-- The token that a word stands for. -/
def ofWord? (word : List Char) : Option Token :=
  if word = ['n', 'u', 'l', 'l'] then some .null
  else if word = ['t', 'r', 'u', 'e'] then some (.bool true)
  else if word = ['f', 'a', 'l', 's', 'e'] then some (.bool false)
  else (Literal.ofWord? word).map .number

/-- The token that a character stands for by itself. -/
def ofChar? : Char → Option Token
  | '[' => some .openArray
  | ']' => some .closeArray
  | '\x7b' => some .openObject
  | '\x7d' => some .closeObject
  | ',' => some .comma
  | ':' => some .colon
  | _ => none

/-- The blanks that may stand between tokens. -/
def isGap (c : Char) : Bool :=
  c == ' ' || c == '\t' || c == '\r' || c == '\n'

/-- What the scanner is inside of; the collected characters and pieces have the last one first. -/
inductive Mode where
  | between
  | word (collected : List Char)
  | quoted (collected : List Piece)
  | escape (collected : List Piece)
  | code (collected : List Piece) (digits : Nat) (value : Nat)
  deriving DecidableEq, Repr

/-- The state of the scanner: the finished tokens, the last one first, and the unfinished one. -/
structure Scan where
  tokens : List Token
  mode : Mode
  deriving DecidableEq, Repr

/-- The character that a short escape stands for. -/
def shortEscape? : Char → Option Char
  | '"' => some '"'
  | '\\' => some '\\'
  | '/' => some '/'
  | 'b' => some '\x08'
  | 'f' => some '\x0c'
  | 'n' => some '\n'
  | 'r' => some '\r'
  | 't' => some '\t'
  | _ => none

/-- The value of a hexadecimal digit of either case. -/
def hexDigit? (c : Char) : Option Nat :=
  if c.isDigit then some (c.toNat - '0'.toNat)
  else if 'a' ≤ c ∧ c ≤ 'f' then some (c.toNat - 'a'.toNat + 10)
  else if 'A' ≤ c ∧ c ≤ 'F' then some (c.toNat - 'A'.toNat + 10)
  else none

/-- Whether a character cannot be part of a word. -/
def endsWord (c : Char) : Bool :=
  isGap c || c == '"' || (ofChar? c).isSome

/-- The state after a character that stands between two tokens or starts one. -/
def Scan.start (tokens : List Token) (c : Char) : Scan :=
  if isGap c then ⟨tokens, .between⟩
  else if c = '"' then ⟨tokens, .quoted []⟩
  else
    match ofChar? c with
    | some token => ⟨token :: tokens, .between⟩
    | none => ⟨tokens, .word [c]⟩

/-- The state after one more character. Control characters cannot stand in a string, and an escape
is either one character or `u` with four hexadecimal digits. -/
def Scan.step (scan : Scan) (c : Char) : Option Scan :=
  match scan.mode with
  | .between => some (.start scan.tokens c)
  | .word collected =>
    if endsWord c then
      (ofWord? collected.reverse).map fun token => .start (token :: scan.tokens) c
    else
      some ⟨scan.tokens, .word (c :: collected)⟩
  | .quoted collected =>
    if c = '"' then some ⟨.string collected.reverse :: scan.tokens, .between⟩
    else if c = '\\' then some ⟨scan.tokens, .escape collected⟩
    else if c.toNat < 0x20 then none
    else some ⟨scan.tokens, .quoted (.char c :: collected)⟩
  | .escape collected =>
    if c = 'u' then some ⟨scan.tokens, .code collected 0 0⟩
    else (shortEscape? c).map fun escaped => ⟨scan.tokens, .quoted (.char escaped :: collected)⟩
  | .code collected digits value =>
    (hexDigit? c).map fun digit =>
      if digits = 3 then ⟨scan.tokens, .quoted (.unit (16 * value + digit) :: collected)⟩
      else ⟨scan.tokens, .code collected (digits + 1) (16 * value + digit)⟩

/-- The tokens at the end of the text, where no string may be left open. -/
def Scan.finish (scan : Scan) : Option (List Token) :=
  match scan.mode with
  | .between => some scan.tokens.reverse
  | .word collected => (ofWord? collected.reverse).map fun token => (token :: scan.tokens).reverse
  | _ => none

/-- The tokens of a text. -/
def scan? (text : List Char) : Option (List Token) :=
  (text.foldlM Scan.step ⟨[], .between⟩).bind Scan.finish

end Token

end QueryFilter.Json
