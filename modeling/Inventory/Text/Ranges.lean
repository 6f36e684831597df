/-!
# Ranges of code points

A property of characters is kept as a list of ranges of code points; both ends belong to their
range.
-/

namespace Inventory.Text

/-- Whether a number lies in one of the ranges. -/
def inRanges (ranges : List (Nat × Nat)) (n : Nat) : Bool :=
  ranges.any fun r => r.1 ≤ n && n ≤ r.2

end Inventory.Text
