/-!
# Runs of code points

A property of characters is a list of runs in ascending order, so that a look-up ends at the first
run that begins above the code point asked for.
-/

namespace Typings.Unicode

/-- The code points from `first` to `last`, both included. -/
structure Range where
  first : Nat
  last : Nat

/-- One of the runs, which ascend, holds the code point. -/
def Range.holds : List Range → Nat → Bool
  | [], _ => false
  | r :: rs, n => if n < r.first then false else n ≤ r.last || holds rs n

end Typings.Unicode
