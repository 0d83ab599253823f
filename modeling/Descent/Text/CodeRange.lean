/-! # Sets of characters given by code ranges

The character properties of this library are tables of inclusive code ranges. Membership is a
plain search, so a table is read exactly as it is written.
-/

namespace Descent.Text

/-- An inclusive range of character codes. -/
abbrev CodeRange := Nat × Nat

/-- The code lies in one of the ranges. -/
def inRanges (table : List CodeRange) (code : Nat) : Bool :=
  table.any fun r => r.1 ≤ code && code ≤ r.2

theorem inRanges_iff {table : List CodeRange} {code : Nat} :
    inRanges table code = true ↔ ∃ r ∈ table, r.1 ≤ code ∧ code ≤ r.2 := by
  simp [inRanges]

end Descent.Text
