/-!
# Ranges of code points

A property of characters is written down as a list of closed ranges of code points in
increasing order.  `inRanges` looks a code point up in such a list.
-/

namespace OfficeMath

/-- Whether `n` lies in one of the closed ranges.  The ranges are listed in increasing order, so
the search stops at the first one that begins above `n`. -/
def inRanges (n : Nat) : List (Nat × Nat) → Bool
  | [] => false
  | (low, high) :: rest => if n < low then false else n ≤ high || inRanges n rest

end OfficeMath
