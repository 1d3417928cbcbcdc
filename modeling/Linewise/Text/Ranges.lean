/-!
# Ranges of code points

Sets of characters given as ascending, disjoint ranges of code points, both ends included.
-/

namespace Linewise.Text

/-- Is the character in one of the ranges? The ranges ascend, so the search ends at the first one that
lies beyond it. -/
def inRanges (c : Char) : List (Nat × Nat) → Bool
  | [] => false
  | (first, last) :: rest =>
    if c.toNat < first then false
    else if c.toNat ≤ last then true
    else inRanges c rest

end Linewise.Text
