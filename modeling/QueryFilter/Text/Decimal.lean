set_option relaxedAutoImplicit false
set_option autoImplicit false

/-!
# Decimal text of integers

Integers are written with ASCII digits, without leading zeros and with `-` in front of a negative
one. Reading is more lenient: one sign of either kind and any number of leading zeros are accepted.

## Main definitions

* `QueryFilter.Text.Decimal.ofInt` — the text of an integer.
* `QueryFilter.Text.Decimal.toInt?` — the integer that a text denotes.
* `QueryFilter.Text.Decimal.toInt64?` — the same, for the integers of 64 bits.

## Main results

* `QueryFilter.Text.Decimal.toInt?_ofInt` — what is written reads back.
-/

namespace QueryFilter.Text.Decimal

/-- The text of an integer. -/
def ofInt (n : Int) : List Char :=
  if n < 0 then '-' :: Nat.toDigits 10 n.natAbs else Nat.toDigits 10 n.natAbs

/-- The text of an integer of 64 bits. -/
def ofInt64 (n : Int64) : String :=
  String.ofList (ofInt n.toInt)

/-- The natural number that a run of digits denotes; the run has at least one digit and nothing
else. -/
def toNat? (text : List Char) : Option Nat :=
  if text ≠ [] ∧ text.all Char.isDigit then some (Nat.ofDigitChars 10 text 0) else none

/-- The integer that a text denotes: digits, with at most one sign in front of them. -/
def toInt? : List Char → Option Int
  | '+' :: digits => (toNat? digits).map Int.ofNat
  | '-' :: digits => (toNat? digits).map fun n => -Int.ofNat n
  | digits => (toNat? digits).map Int.ofNat

/-- The integer of 64 bits that equals a given integer, if there is one. -/
def ofInt64? (n : Int) : Option Int64 :=
  if Int64.minValue.toInt ≤ n ∧ n ≤ Int64.maxValue.toInt then some (Int64.ofInt n) else none

/-- The integer of 64 bits that a text denotes. -/
def toInt64? (text : List Char) : Option Int64 :=
  (toInt? text).bind ofInt64?

/-- The text of an integer has digits and at most a minus sign. -/
theorem eq_minus_or_isDigit_of_mem_ofInt {n : Int} {c : Char} (h : c ∈ ofInt n) :
    c = '-' ∨ c.isDigit = true := by
  have hdigit (h : c ∈ Nat.toDigits 10 n.natAbs) : c.isDigit = true :=
    Nat.isDigit_of_mem_toDigits (by decide) (by decide) h
  rw [ofInt] at h
  split at h
  · rcases List.mem_cons.1 h with rfl | h
    · exact .inl rfl
    · exact .inr (hdigit h)
  · exact .inr (hdigit h)

/-! ## What is written reads back -/

theorem toNat?_toDigits (n : Nat) : toNat? (Nat.toDigits 10 n) = some n := by
  have digits : (Nat.toDigits 10 n).all Char.isDigit = true := by
    rw [List.all_eq_true]
    exact fun c hc => Nat.isDigit_of_mem_toDigits (by decide) (by decide) hc
  rw [toNat?, if_pos ⟨Nat.toDigits_ne_nil, digits⟩,
    Nat.ofDigitChars_toDigits (by decide) (by decide)]

/-- A run of digits is read without regard to signs. -/
theorem toInt?_toDigits (n : Nat) : toInt? (Nat.toDigits 10 n) = some (Int.ofNat n) := by
  rw [toInt?, toNat?_toDigits]
  · rfl
  all_goals
    intro rest h
    have hmem : _ ∈ Nat.toDigits 10 n := h ▸ List.mem_cons_self
    exact absurd (Nat.isDigit_of_mem_toDigits (by decide) (by decide) hmem) (by decide)

/-- What is written for an integer reads back as that integer. -/
theorem toInt?_ofInt (n : Int) : toInt? (ofInt n) = some n := by
  rw [ofInt]
  split
  · next h =>
    rw [toInt?, toNat?_toDigits]
    simp only [Option.map_some, Option.some.injEq, Int.ofNat_eq_natCast]
    omega
  · next h =>
    rw [toInt?_toDigits]
    simp only [Option.some.injEq, Int.ofNat_eq_natCast]
    omega

/-- What is written for an integer of 64 bits reads back as that integer. -/
theorem toInt64?_ofInt64 (n : Int64) : toInt64? (ofInt64 n).toList = some n := by
  rw [toInt64?, ofInt64, String.toList_ofList, toInt?_ofInt, Option.bind_some, ofInt64?,
    if_pos ⟨Int64.minValue_le_toInt n, Int64.toInt_le n⟩, Int64.ofInt_toInt]

end QueryFilter.Text.Decimal
