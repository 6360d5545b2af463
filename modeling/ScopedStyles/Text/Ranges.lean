/-!
# Ranges of code points

A set of code points as ranges in ascending order, the ends included. `inRanges` searches them by
halving.
-/

namespace ScopedStyles.Text

/-- Whether a code point lies in one of the ranges between two indices. -/
def searchRanges (ranges : Array (Nat × Nat)) (c : Nat) : Nat → Nat → Nat → Bool
  | 0, _, _ => false
  | k + 1, first, last =>
    if last ≤ first then false
    else
      let middle := (first + last) / 2
      match ranges[middle]? with
      | none => false
      | some (lo, hi) =>
        if c < lo then searchRanges ranges c k first middle
        else if hi < c then searchRanges ranges c k (middle + 1) last
        else true

def inRanges (ranges : Array (Nat × Nat)) (c : Nat) : Bool :=
  searchRanges ranges c ranges.size 0 ranges.size

end ScopedStyles.Text
