-- SUMMARY: Sets of characters given as tables of closed ranges of code points.

/-! # Ranges of code points

A standard lists a character property as ranges of code points. A table of this
library holds such a list, smallest range first, and `inRanges` reads it. -/

namespace Egg.Text

/-- Whether the code point of `c` lies in one of the closed ranges. -/
def inRanges (ranges : List (Nat × Nat)) (c : Char) : Bool :=
  ranges.any fun (lo, hi) => lo ≤ c.toNat && c.toNat ≤ hi

/-- A character is in a table exactly if some range of the table holds it. -/
theorem inRanges_iff {ranges : List (Nat × Nat)} {c : Char} :
    inRanges ranges c = true ↔ ∃ r ∈ ranges, r.1 ≤ c.toNat ∧ c.toNat ≤ r.2 := by
  simp only [inRanges, List.any_eq_true, Bool.and_eq_true, decide_eq_true_eq]

end Egg.Text
