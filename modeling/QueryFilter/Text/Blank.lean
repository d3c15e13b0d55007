set_option relaxedAutoImplicit false
set_option autoImplicit false

/-!
# Blank characters

The characters of the Unicode property `White_Space`, and the text that is left when such characters
are taken off both of its ends. Numbers that stand in the environment may be padded with them.

## Main definitions

* `QueryFilter.Text.blankRanges` — the property as a table of code point ranges.
* `QueryFilter.Text.isBlank` — membership in the table.
* `QueryFilter.Text.trim` — a text without the blanks at its ends.
-/

namespace QueryFilter.Text

/-- The Unicode property `White_Space`, as ranges of code points with both ends included. -/
def blankRanges : List (Nat × Nat) :=
  [(0x09, 0x0D), (0x20, 0x20), (0x85, 0x85), (0xA0, 0xA0), (0x1680, 0x1680), (0x2000, 0x200A),
    (0x2028, 0x2029), (0x202F, 0x202F), (0x205F, 0x205F), (0x3000, 0x3000)]

/-- A character is blank when its code point lies in one of the ranges. -/
def isBlank (c : Char) : Bool :=
  blankRanges.any fun (low, high) => low ≤ c.toNat && c.toNat ≤ high

/-- The property has twenty-five members. -/
example : (blankRanges.map fun (low, high) => high + 1 - low).sum = 25 := rfl

/-- The ranges are listed in ascending order and do not meet. -/
example : blankRanges.Pairwise fun a b => a.2 < b.1 := by decide

/-- A text without the blanks that it starts with. -/
def trimStart (text : List Char) : List Char :=
  text.dropWhile isBlank

/-- A text without the blanks that it ends with. -/
def trimEnd (text : List Char) : List Char :=
  (text.reverse.dropWhile isBlank).reverse

/-- A text without the blanks at its two ends. -/
def trim (text : List Char) : List Char :=
  trimEnd (trimStart text)

end QueryFilter.Text
