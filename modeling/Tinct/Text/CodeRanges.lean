/-! # Ranges of code points

A character property is given as an ascending list of disjoint closed ranges of code points. -/

namespace Tinct

/-- Closed ranges of code points, in ascending order and disjoint. -/
abbrev CodeRanges := List (Nat × Nat)

/-- Whether a code point lies in one of the ranges; the search ends at the first range above it. -/
def CodeRanges.contains : CodeRanges → Nat → Bool
  | [], _ => false
  | (first, last) :: ranges, n =>
    if n < first then false else n ≤ last || CodeRanges.contains ranges n

end Tinct
