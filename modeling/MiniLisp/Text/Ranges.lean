/-!
# Sets of code points

A set of characters is a list of closed intervals of code points.
-/

namespace MiniLisp.Text

def inRanges (ranges : List (Nat × Nat)) (n : Nat) : Bool :=
  ranges.any fun (low, high) ↦ decide (low ≤ n ∧ n ≤ high)

end MiniLisp.Text
