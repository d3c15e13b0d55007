set_option relaxedAutoImplicit false
set_option autoImplicit false

/-!
# Saturating arithmetic

Sums and differences of integers of 64 bits that stop at the ends of their range.

## Main definitions

* `QueryFilter.Saturating.add`, `QueryFilter.Saturating.sub` — the operations.

## Main results

* `QueryFilter.Saturating.toInt_add`, `QueryFilter.Saturating.toInt_sub` — they are exact up to the
  ends of the range.
-/

namespace QueryFilter.Saturating

/-- The sum, or the end of the range that it lies beyond. -/
def add (a b : Int64) : Int64 :=
  Int64.ofIntClamp (a.toInt + b.toInt)

/-- The difference, or the end of the range that it lies beyond. -/
def sub (a b : Int64) : Int64 :=
  Int64.ofIntClamp (a.toInt - b.toInt)

/-- An integer, or the end of the range that it lies beyond. -/
def clamp (n : Int) : Int :=
  max Int64.minValue.toInt (min n Int64.maxValue.toInt)

/-- The integer of 64 bits that is nearest to an integer is the clamped one. -/
theorem toInt_ofIntClamp (n : Int) : (Int64.ofIntClamp n).toInt = clamp n := by
  have order : Int64.minValue.toInt ≤ Int64.maxValue.toInt := by decide
  rw [clamp]
  unfold Int64.ofIntClamp
  split
  · split
    · rw [Int64.toInt_ofIntLE]
      omega
    · omega
  · omega

/-- The sum is the exact one, up to the ends of the range. -/
theorem toInt_add (a b : Int64) : (add a b).toInt = clamp (a.toInt + b.toInt) :=
  toInt_ofIntClamp _

/-- The difference is the exact one, up to the ends of the range. -/
theorem toInt_sub (a b : Int64) : (sub a b).toInt = clamp (a.toInt - b.toInt) :=
  toInt_ofIntClamp _

end QueryFilter.Saturating
