import QueryFilter.Json.Binary64
import QueryFilter.Json.Token
import QueryFilter.Text.Decimal

set_option relaxedAutoImplicit false
set_option autoImplicit false

/-!
# JSON numbers

A number that is written with digits alone and fits into 64 bits, with or without a sign, is an
integer. Every other number is taken in double precision. Its digits are collected into an integer
of 64 bits as long as they fit, the others only count as powers of ten, and the collected integer is
then multiplied or divided by the power of ten, all in double precision. The result can differ in
its last bits from the number nearest to the text.

## Main definitions

* `QueryFilter.Json.Number` — the numbers.
* `QueryFilter.Json.Number.ofLiteral?` — the number that a literal denotes, if it is not too large.
* `QueryFilter.Json.Number.write` — the text of a number.
-/

namespace QueryFilter.Json

/-- A JSON number: an integer, or a number in double precision with its sign. -/
inductive Number where
  | integer (value : Int)
  | double (negative : Bool) (magnitude : Binary64)
  deriving DecidableEq, Repr

namespace Number

/-! ## Reading -/

/-- The bound of the integers into which digits are collected. -/
def significandBound : Nat := Nat.pow 2 64

/-- Appends digits to an integer as long as it stays below the bound, and gives back the others. -/
def collect : Nat → List Char → Nat × List Char
  | significand, [] => (significand, [])
  | significand, c :: rest =>
    let next := 10 * significand + (c.toNat - '0'.toNat)
    if next < significandBound then collect next rest else (significand, c :: rest)

/-- The greatest exponent of a power of ten that has a double precision number of its own. -/
def maxPower : Nat := 308

/-- The power of ten in double precision. -/
def powerOfTen? (exponent : Nat) : Option Binary64 :=
  Binary64.ofNat? (Nat.pow 10 exponent)

/-- Divides by a power of ten. One that has no number of its own is split in two steps, and beyond
two steps nothing is left of an integer of 64 bits. -/
def divideByPower? (x : Binary64) (exponent : Nat) : Option Binary64 :=
  if exponent ≤ maxPower then (powerOfTen? exponent).bind x.div?
  else if exponent ≤ 2 * maxPower then do
    let y ← (powerOfTen? maxPower).bind x.div?
    (powerOfTen? (exponent - maxPower)).bind y.div?
  else some .zero

/-- An integer of 64 bits times a power of ten, unless that is too large. -/
def scale? (significand : Nat) (exponent : Int) : Option Binary64 :=
  if significand = 0 then some .zero
  else do
    let x ← Binary64.ofNat? significand
    if exponent < 0 then divideByPower? x exponent.natAbs
    else if exponent.natAbs ≤ maxPower then (powerOfTen? exponent.natAbs).bind x.mul?
    else none

/-- The exponent that a literal gives. -/
def givenExponent (literal : Literal) : Int :=
  match literal.exponent with
  | none => 0
  | some (true, digits) => -(Nat.ofDigitChars 10 digits 0 : Int)
  | some (false, digits) => Nat.ofDigitChars 10 digits 0

/-- The double precision number that a literal denotes, unless it is too large. -/
def double? (literal : Literal) : Option Number :=
  let (whole, left) := collect 0 literal.whole
  let fraction := literal.fraction.getD []
  let (significand, unused) := collect whole fraction
  let used := fraction.length - unused.length
  (scale? significand (givenExponent literal + left.length - used)).map (.double literal.negative)

/-- The number that a literal denotes, unless it is too large. Minus zero is not an integer. -/
def ofLiteral? (literal : Literal) : Option Number :=
  if literal.fraction = none ∧ literal.exponent = none then
    let (value, left) := collect 0 literal.whole
    if left ≠ [] then double? literal
    else if !literal.negative then some (.integer value)
    else if 0 < value ∧ value ≤ Int64.minValue.toInt.natAbs then some (.integer (-value))
    else double? literal
  else
    double? literal

/-! ## Writing -/

/-- The least power of ten whose multiples are written without an exponent. -/
def minPositional : Int := -5

/-- The least power of ten from which on an exponent is written. -/
def minExponential : Int := 16

/-- Digits with a point after the given number of them: zeros fill the places between the point and
the digits, and one zero stands where the point would be first or last. -/
def positional (digits : List Char) (point : Int) : List Char :=
  if point ≤ 0 then '0' :: '.' :: List.replicate point.natAbs '0' ++ digits
  else if (digits.length : Int) ≤ point then
    digits ++ List.replicate (point.natAbs - digits.length) '0' ++ ['.', '0']
  else digits.take point.natAbs ++ '.' :: digits.drop point.natAbs

/-- Digits with a point after the first one if there are more, and an exponent with its sign. -/
def exponential (digits : List Char) (exponent : Int) : List Char :=
  let mantissa :=
    match digits with
    | first :: second :: rest => first :: '.' :: second :: rest
    | digits => digits
  mantissa ++ 'e' :: (if exponent < 0 then '-' else '+') :: Nat.toDigits 10 exponent.natAbs

/-- Digits without the zeros at their end. -/
def withoutEndZeros (digits : List Char) : List Char :=
  (digits.reverse.dropWhile (· == '0')).reverse

/-- The text of a double precision number without its sign: its shortest digits, with an exponent
where the number is small or large. -/
def writeMagnitude (x : Binary64) : List Char :=
  if x.mantissa = 0 then ['0', '.', '0']
  else
    let (digits, power) := x.shortest
    let text := Nat.toDigits 10 digits
    let exponent := power + text.length - 1
    if minPositional ≤ exponent ∧ exponent < minExponential then
      positional (withoutEndZeros text) (exponent + 1)
    else
      exponential (withoutEndZeros text) exponent

/-- The text of a number. -/
def write : Number → List Char
  | integer value => Text.Decimal.ofInt value
  | double negative magnitude =>
    if negative then '-' :: writeMagnitude magnitude else writeMagnitude magnitude

end Number

end QueryFilter.Json
