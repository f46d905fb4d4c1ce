/-!
Sets of code points given as sorted inclusive ranges, the form in which character properties are
tabulated. `inRanges` is membership.
-/

namespace Descent.Text

/-- Does one of the inclusive ranges hold the code point? -/
def inRanges (ranges : List (Nat × Nat)) (code : Nat) : Bool :=
  ranges.any fun (low, high) => low ≤ code && code ≤ high

end Descent.Text
