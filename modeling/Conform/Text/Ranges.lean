/-!
# Classes of characters as ranges

A class is a list of closed ranges of code points, ascending and apart.
-/

namespace Conform.Text

/-- Whether one of the ranges holds `n`. -/
def inRanges (ranges : List (Nat × Nat)) (n : Nat) : Bool :=
  ranges.any fun r => decide (r.1 ≤ n) && decide (n ≤ r.2)

end Conform.Text
