/-!
# Sets of characters as code ranges

A property of characters is given by the inclusive ranges of the code points that have it.
-/

namespace MarkupTree.Unicode

/-- Whether a range holds the code of `c`. -/
def inRanges (ranges : List (Nat × Nat)) (c : Char) : Bool :=
  ranges.any fun r => r.1 ≤ c.toNat && c.toNat ≤ r.2

end MarkupTree.Unicode
