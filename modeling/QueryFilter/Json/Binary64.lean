set_option relaxedAutoImplicit false
set_option autoImplicit false

/-!
# Double precision numbers

The finite numbers that are not negative of the binary format with 64 bits, as a mantissa and a
power of two. Every operation is the exact one on fractions followed by one rounding to the nearest
number, to the even mantissa where two are equally near.

## Main definitions

* `QueryFilter.Json.Binary64` — the numbers.
* `QueryFilter.Json.Binary64.round?` — the number nearest to a fraction.
* `QueryFilter.Json.Binary64.mul?`, `QueryFilter.Json.Binary64.div?` — rounded products and
  quotients.
* `QueryFilter.Json.Binary64.shortest` — the fewest decimal digits that read back as the number.

## Main results

* `QueryFilter.Json.Binary64.roundedMantissa_le` — rounding a mantissa carries by one place at most.
* `QueryFilter.Json.Binary64.isNormal_rounded` — a rounded number is as the format has it.
-/

namespace QueryFilter.Json

namespace Binary64

/-- The bound of the mantissa, which has 53 bits. -/
def mantissaBound : Nat := Nat.pow 2 53

/-- The least mantissa with 53 bits. -/
def leastNormal : Nat := Nat.pow 2 52

/-- The least exponent. -/
def minExponent : Int := -1074

/-- The greatest exponent. -/
def maxExponent : Int := 971

/-- A mantissa has 53 bits unless the exponent is the least one, so that every number is written in
one way only. -/
def IsNormal (mantissa : Nat) (exponent : Int) : Prop :=
  exponent = minExponent ∨ leastNormal ≤ mantissa

end Binary64

/-- The number `mantissa * 2 ^ exponent`, with the bounds of the format. -/
structure Binary64 where
  mantissa : Nat
  exponent : Int
  mantissa_lt : mantissa < Binary64.mantissaBound
  minExponent_le : Binary64.minExponent ≤ exponent
  exponent_le : exponent ≤ Binary64.maxExponent
  isNormal : Binary64.IsNormal mantissa exponent
  deriving DecidableEq, Repr

namespace Binary64

/-- The number zero. -/
def zero : Binary64 := ⟨0, minExponent, by decide, by decide, by decide, .inl rfl⟩

/-! ## Rounding -/

/-- A fraction, rounded to the nearest natural number, a half to the even neighbour. -/
def nearest (numerator denominator : Nat) : Nat :=
  let quotient := numerator / denominator
  let twice := 2 * (numerator % denominator)
  if twice < denominator then quotient
  else if denominator < twice then quotient + 1
  else quotient + quotient % 2

/-- A fraction is rounded to one of its two neighbours. -/
theorem nearest_bounds (numerator denominator : Nat) :
    numerator / denominator ≤ nearest numerator denominator ∧
      nearest numerator denominator ≤ numerator / denominator + 1 := by
  rw [nearest]
  split
  · omega
  · split <;> omega

/-- A fraction divided by a power of two. -/
def scaled (numerator denominator : Nat) (exponent : Int) : Nat × Nat :=
  if exponent < 0 then (numerator * Nat.pow 2 exponent.natAbs, denominator)
  else (numerator, denominator * Nat.pow 2 exponent.natAbs)

/-- The least exponent at which the quotient could have 53 bits, going by the binary digits of the
numerator and the denominator; never less than the format allows. -/
def guessedExponent (numerator denominator : Nat) : Int :=
  max minExponent ((Nat.log2 numerator : Int) - Nat.log2 denominator - 53)

/-- The exponent at which the mantissa has 53 bits, or the least one. -/
def roundedExponent (numerator denominator : Nat) : Int :=
  let guess := guessedExponent numerator denominator
  let (n, d) := scaled numerator denominator guess
  if n / d < mantissaBound then guess else guess + 1

/-- The mantissa at that exponent, before a carry. -/
def roundedMantissa (numerator denominator : Nat) : Nat :=
  let (n, d) := scaled numerator denominator (roundedExponent numerator denominator)
  nearest n d

section Rounding

variable {numerator denominator : Nat}

/-- A fraction that is scaled far enough down has at most so many bits. -/
theorem scaled_lt (hdenominator : denominator ≠ 0) {bits : Nat} {exponent : Int}
    (h : (Nat.log2 numerator : Int) - Nat.log2 denominator + 1 ≤ bits + exponent) :
    (scaled numerator denominator exponent).1
      < Nat.pow 2 bits * (scaled numerator denominator exponent).2 := by
  have hnumerator : numerator < Nat.pow 2 (Nat.log2 numerator + 1) := Nat.lt_log2_self
  have hleast : Nat.pow 2 (Nat.log2 denominator) ≤ denominator := Nat.log2_self_le hdenominator
  rw [scaled]
  generalize hk : exponent.natAbs = k
  split
  · calc
      numerator * Nat.pow 2 k < Nat.pow 2 (Nat.log2 numerator + 1) * Nat.pow 2 k :=
        Nat.mul_lt_mul_of_pos_right hnumerator (Nat.two_pow_pos k)
      _ = Nat.pow 2 (Nat.log2 numerator + 1 + k) := (Nat.pow_add 2 _ _).symm
      _ ≤ Nat.pow 2 (bits + Nat.log2 denominator) := Nat.pow_le_pow_right (by decide) (by omega)
      _ = Nat.pow 2 bits * Nat.pow 2 (Nat.log2 denominator) := Nat.pow_add 2 _ _
      _ ≤ Nat.pow 2 bits * denominator := Nat.mul_le_mul_left _ hleast
  · calc
      numerator < Nat.pow 2 (Nat.log2 numerator + 1) := hnumerator
      _ ≤ Nat.pow 2 (bits + (Nat.log2 denominator + k)) :=
        Nat.pow_le_pow_right (by decide) (by omega)
      _ = Nat.pow 2 bits * Nat.pow 2 (Nat.log2 denominator + k) := Nat.pow_add 2 _ _
      _ = Nat.pow 2 bits * (Nat.pow 2 (Nat.log2 denominator) * Nat.pow 2 k) :=
        congrArg (Nat.pow 2 bits * ·) (Nat.pow_add 2 _ _)
      _ ≤ Nat.pow 2 bits * (denominator * Nat.pow 2 k) :=
        Nat.mul_le_mul_left _ (Nat.mul_le_mul_right _ hleast)

/-- A fraction that is scaled no further than that has more than so many bits. -/
theorem le_scaled (hnumerator : numerator ≠ 0) {bits : Nat} {exponent : Int}
    (h : bits + exponent ≤ (Nat.log2 numerator : Int) - Nat.log2 denominator - 1) :
    Nat.pow 2 bits * (scaled numerator denominator exponent).2
      ≤ (scaled numerator denominator exponent).1 := by
  have hleast : Nat.pow 2 (Nat.log2 numerator) ≤ numerator := Nat.log2_self_le hnumerator
  have hdenominator : denominator ≤ Nat.pow 2 (Nat.log2 denominator + 1) :=
    Nat.le_of_lt Nat.lt_log2_self
  rw [scaled]
  generalize hk : exponent.natAbs = k
  split
  · calc
      Nat.pow 2 bits * denominator ≤ Nat.pow 2 bits * Nat.pow 2 (Nat.log2 denominator + 1) :=
        Nat.mul_le_mul_left _ hdenominator
      _ = Nat.pow 2 (bits + (Nat.log2 denominator + 1)) := (Nat.pow_add 2 _ _).symm
      _ ≤ Nat.pow 2 (Nat.log2 numerator + k) := Nat.pow_le_pow_right (by decide) (by omega)
      _ = Nat.pow 2 (Nat.log2 numerator) * Nat.pow 2 k := Nat.pow_add 2 _ _
      _ ≤ numerator * Nat.pow 2 k := Nat.mul_le_mul_right _ hleast
  · calc
      Nat.pow 2 bits * (denominator * Nat.pow 2 k)
          ≤ Nat.pow 2 bits * (Nat.pow 2 (Nat.log2 denominator + 1) * Nat.pow 2 k) :=
        Nat.mul_le_mul_left _ (Nat.mul_le_mul_right _ hdenominator)
      _ = Nat.pow 2 bits * Nat.pow 2 (Nat.log2 denominator + 1 + k) :=
        congrArg (Nat.pow 2 bits * ·) (Nat.pow_add 2 _ _).symm
      _ = Nat.pow 2 (bits + (Nat.log2 denominator + 1 + k)) := (Nat.pow_add 2 _ _).symm
      _ ≤ Nat.pow 2 (Nat.log2 numerator) := Nat.pow_le_pow_right (by decide) (by omega)
      _ ≤ numerator := hleast

/-- One more power of two halves the numerator or doubles the denominator. -/
theorem scaled_succ (numerator denominator : Nat) (exponent : Int) :
    ((scaled numerator denominator exponent).1
          = 2 * (scaled numerator denominator (exponent + 1)).1 ∧
        (scaled numerator denominator (exponent + 1)).2
          = (scaled numerator denominator exponent).2) ∨
      ((scaled numerator denominator (exponent + 1)).1
          = (scaled numerator denominator exponent).1 ∧
        (scaled numerator denominator (exponent + 1)).2
          = 2 * (scaled numerator denominator exponent).2) := by
  have hdouble (n k : Nat) : n * Nat.pow 2 (k + 1) = 2 * (n * Nat.pow 2 k) := by
    rw [show Nat.pow 2 (k + 1) = Nat.pow 2 k * 2 from rfl, ← Nat.mul_assoc, Nat.mul_comm]
  by_cases hneg : exponent < 0
  · left
    obtain ⟨k, hk⟩ : ∃ k, exponent.natAbs = k + 1 := ⟨exponent.natAbs - 1, by omega⟩
    rw [scaled, scaled, if_pos hneg, hk, hdouble]
    split
    · have hk' : (exponent + 1).natAbs = k := by omega
      rw [hk']
      exact ⟨rfl, rfl⟩
    · have hzero : (exponent + 1).natAbs = 0 := by omega
      have hk' : k = 0 := by omega
      rw [hzero, hk']
      exact ⟨congrArg (2 * ·) (Nat.mul_one numerator), Nat.mul_one denominator⟩
  · right
    have hk : (exponent + 1).natAbs = exponent.natAbs + 1 := by omega
    rw [scaled, scaled, if_neg hneg, if_neg (by omega), hk, hdouble]
    exact ⟨rfl, rfl⟩

/-- A denominator stays positive. -/
theorem scaled_pos (hdenominator : denominator ≠ 0) (exponent : Int) :
    0 < (scaled numerator denominator exponent).2 := by
  rw [scaled]
  split
  · exact Nat.pos_of_ne_zero hdenominator
  · exact Nat.mul_pos (Nat.pos_of_ne_zero hdenominator) (Nat.two_pow_pos _)

/-- The exponent is one of the format, except that it may be too great. -/
theorem minExponent_le_roundedExponent (numerator denominator : Nat) :
    minExponent ≤ roundedExponent numerator denominator := by
  have hguess : minExponent ≤ guessedExponent numerator denominator := by
    rw [guessedExponent]
    omega
  rw [roundedExponent]
  dsimp only
  split <;> omega

/-- The guess is too small by one at most. -/
theorem roundedExponent_cases (numerator denominator : Nat) :
    let guess := guessedExponent numerator denominator
    let quotient := (scaled numerator denominator guess).1 / (scaled numerator denominator guess).2
    roundedExponent numerator denominator = guess ∧ quotient < mantissaBound ∨
      roundedExponent numerator denominator = guess + 1 ∧ ¬ quotient < mantissaBound := by
  intro guess quotient
  by_cases h : quotient < mantissaBound
  · exact .inl ⟨if_pos h, h⟩
  · exact .inr ⟨if_neg h, h⟩

/-- The quotient has at most 53 bits, so that a mantissa that is rounded up may have one more. -/
theorem roundedMantissa_le (hdenominator : denominator ≠ 0) :
    roundedMantissa numerator denominator ≤ mantissaBound := by
  have hquotient : (scaled numerator denominator (roundedExponent numerator denominator)).1
        / (scaled numerator denominator (roundedExponent numerator denominator)).2
      < mantissaBound := by
    rcases roundedExponent_cases numerator denominator with ⟨hexponent, hlt⟩ | ⟨hexponent, -⟩
    · rw [hexponent]
      exact hlt
    · rw [hexponent, Nat.div_lt_iff_lt_mul (scaled_pos hdenominator _)]
      refine scaled_lt hdenominator ?_
      rw [guessedExponent]
      omega
  have hnearest := (nearest_bounds
    (scaled numerator denominator (roundedExponent numerator denominator)).1
    (scaled numerator denominator (roundedExponent numerator denominator)).2).2
  exact Nat.le_trans hnearest hquotient

/-- The quotient has 53 bits, unless the exponent is the least one. -/
theorem isNormal_rounded (hnumerator : numerator ≠ 0) (hdenominator : denominator ≠ 0) :
    IsNormal (roundedMantissa numerator denominator) (roundedExponent numerator denominator) := by
  by_cases hleast : roundedExponent numerator denominator = minExponent
  · exact .inl hleast
  right
  have hscaled : leastNormal
        * (scaled numerator denominator (roundedExponent numerator denominator)).2
      ≤ (scaled numerator denominator (roundedExponent numerator denominator)).1 := by
    rcases roundedExponent_cases numerator denominator with ⟨hexponent, -⟩ | ⟨hexponent, hge⟩
    · rw [hexponent] at hleast ⊢
      refine le_scaled hnumerator ?_
      rw [guessedExponent] at hleast ⊢
      omega
    · rw [hexponent]
      rw [Nat.div_lt_iff_lt_mul (scaled_pos hdenominator _), Nat.not_lt] at hge
      have hbound : mantissaBound = 2 * leastNormal := rfl
      rw [hbound, Nat.mul_assoc] at hge
      rcases scaled_succ numerator denominator (guessedExponent numerator denominator) with
        ⟨hn, hd⟩ | ⟨hn, hd⟩
      · rw [hn] at hge
        rw [hd]
        exact Nat.le_of_mul_le_mul_left hge (by decide)
      · rw [hn, hd, Nat.mul_left_comm]
        exact hge
  have hnearest := (nearest_bounds
    (scaled numerator denominator (roundedExponent numerator denominator)).1
    (scaled numerator denominator (roundedExponent numerator denominator)).2).1
  exact Nat.le_trans ((Nat.le_div_iff_mul_le (scaled_pos hdenominator _)).2 hscaled) hnearest

end Rounding

/-- The number nearest to a fraction, unless it is too large for the format. A mantissa that is rounded
up to 54 bits loses the last one of them, which is zero. Nothing is near to what is divided by zero.
-/
def round? (numerator denominator : Nat) : Option Binary64 :=
  if hnumerator : numerator = 0 then some zero
  else if hdenominator : denominator = 0 then none
  else
    let mantissa := roundedMantissa numerator denominator
    let exponent := roundedExponent numerator denominator
    have hleast : minExponent ≤ exponent := minExponent_le_roundedExponent numerator denominator
    if hmantissa : mantissa < mantissaBound then
      if hexponent : exponent ≤ maxExponent then
        some ⟨mantissa, exponent, hmantissa, hleast, hexponent,
          isNormal_rounded hnumerator hdenominator⟩
      else none
    else if hexponent : exponent + 1 ≤ maxExponent then
      have hcarry : mantissa = mantissaBound :=
        Nat.le_antisymm (roundedMantissa_le hdenominator) (Nat.not_lt.1 hmantissa)
      have hhalf : mantissa / 2 = leastNormal := congrArg (· / 2) hcarry
      some ⟨mantissa / 2, exponent + 1, hhalf ▸ (by decide), Int.le_add_one hleast, hexponent,
        .inr (Nat.le_of_eq hhalf.symm)⟩
    else none

/-- The value of a number as a fraction. -/
def fraction (x : Binary64) : Nat × Nat :=
  if x.exponent < 0 then (x.mantissa, Nat.pow 2 x.exponent.natAbs)
  else (x.mantissa * Nat.pow 2 x.exponent.natAbs, 1)

/-- The rounded product. -/
def mul? (x y : Binary64) : Option Binary64 :=
  round? (x.fraction.1 * y.fraction.1) (x.fraction.2 * y.fraction.2)

/-- The rounded quotient. -/
def div? (x y : Binary64) : Option Binary64 :=
  round? (x.fraction.1 * y.fraction.2) (x.fraction.2 * y.fraction.1)

/-- The number nearest to a natural number. -/
def ofNat? (n : Nat) : Option Binary64 :=
  round? n 1

/-- The number nearest to `digits * 10 ^ power`. -/
def ofDecimal? (digits : Nat) (power : Int) : Option Binary64 :=
  if power < 0 then round? digits (Nat.pow 10 power.natAbs)
  else round? (digits * Nat.pow 10 power.natAbs) 1

/-! ## Shortest decimal text -/

/-- The number of decimal digits of a natural number; zero has none. -/
def digitCount (n : Nat) : Nat :=
  if n = 0 then 0 else (Nat.toDigits 10 n).length

/-- The greatest power of ten that does not exceed a positive fraction. -/
def decimalPower (numerator denominator : Nat) : Int :=
  if denominator ≤ numerator then (digitCount (numerator / denominator) : Int) - 1
  else -(digitCount ((denominator - 1) / numerator) : Int)

/-- The one of a number's two neighbours among the multiples of a power of ten that reads back as
the number; the nearer one if both do, and of two equally near ones the even one. -/
def onGrid? (x : Binary64) (power : Int) : Option Nat :=
  let (n, d) :=
    if power < 0 then (x.fraction.1 * Nat.pow 10 power.natAbs, x.fraction.2)
    else (x.fraction.1, x.fraction.2 * Nat.pow 10 power.natAbs)
  let below := n / d
  match ofDecimal? below power == some x, ofDecimal? (below + 1) power == some x with
  | true, true => some (nearest n d)
  | true, false => some below
  | false, true => some (below + 1)
  | false, false => none

/-- The decimal digits of a number with the power of ten of the last one, from the coarsest grid
that holds a decimal which reads back as the number. Seventeen digits always do. -/
def shortestFrom (x : Binary64) : Nat → Int → Nat × Int
  | 0, _ => (0, 0)
  | bound + 1, power =>
    match x.onGrid? power with
    | some digits => (digits, power)
    | none => x.shortestFrom bound (power - 1)

/-- The fewest decimal digits that read back as the number, with the power of ten of the last one.
-/
def shortest (x : Binary64) : Nat × Int :=
  x.shortestFrom 17 (decimalPower x.fraction.1 x.fraction.2)

end Binary64

end QueryFilter.Json
