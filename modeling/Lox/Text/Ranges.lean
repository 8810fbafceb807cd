/-!
# Sets of code points as increasing ranges

A property of characters is stored as a list of closed ranges in increasing order. A look-up stops
at the first range that starts above the code point; the order of the list is what makes that exact.
-/
namespace Lox.Text

/-- Closed ranges of code points, each a pair of its least and its greatest member. -/
abbrev Ranges := List (Nat × Nat)

namespace Ranges

/-- Whether `code` lies in one of the ranges. They are read up to the first that starts above it. -/
def covers : Ranges → Nat → Bool
  | [], _ => false
  | (low, high) :: rest, code =>
    if code < low then false else code ≤ high || covers rest code

end Ranges

end Lox.Text
