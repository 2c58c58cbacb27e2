/-!
Sets of characters that are given by ranges of code points.
-/

namespace Lox.Text

/-- Whether a number lies in one of several ranges, whose ends belong to them. -/
def inRanges (ranges : List (Nat × Nat)) (n : Nat) : Bool :=
  ranges.any fun (first, last) => decide (first ≤ n ∧ n ≤ last)

end Lox.Text
