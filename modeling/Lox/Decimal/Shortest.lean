import Lox.Decimal.Binary64

/-!
# The shortest decimal that reads back

The real numbers that round to a double form an interval between the midpoints to its two
neighbours. Of the decimals in that interval one with the fewest digits is chosen, and of these the
nearest to the double. Everything is counted in multiples of `10 ^ -1074`, of which every finite
double is a whole number; so the search over coarser and coarser grids ends at the latest on the
double itself.
-/
namespace Lox.Decimal

-- Powers below are those of `Nat` itself, also where other powers are in scope.
attribute [local instance (high)] instPowNat

/-- The value of the double number `code`, counted in multiples of `10 ^ -1074`. -/
def tenths (code : Nat) : Nat :=
  units code * 5 ^ unitPlaces

/-- Whether the decimal `coefficient * 10 ^ place`, counted in multiples of `10 ^ -1074`, rounds to
the double number `code`. The two ends of the interval do when `code` is even. -/
def roundsTo (code coefficient place : Nat) : Bool :=
  let low := tenths (code - 1) + tenths code
  let high := tenths code + tenths (code + 1)
  let twice := 2 * (coefficient * 10 ^ place)
  if code % 2 = 0 then low ≤ twice && twice ≤ high else low < twice && twice < high

/-- The multiple of `10 ^ place` that rounds to the double number `code`, as its coefficient: the
neighbour of the double on that grid that is nearer among those that round to it, a half going to
the even one. -/
def onGrid (code place : Nat) : Option Nat :=
  let below := tenths code / 10 ^ place
  match roundsTo code below place, roundsTo code (below + 1) place with
  | false, false => none
  | true, false => some below
  | false, true => some (below + 1)
  | true, true => some (roundHalfEven (tenths code) (10 ^ place))

/-- The first grid with a decimal for the double number `code`, from `10 ^ place` down. -/
def firstGrid (code : Nat) : Nat → Nat × Nat
  | 0 => (tenths code, 0)
  | place + 1 =>
    match onGrid code (place + 1) with
    | some coefficient => (coefficient, place + 1)
    | none => firstGrid code place

/-- A positive decimal, `0.d₁d₂d₃… * 10 ^ point` for the digits `d₁d₂d₃…`. -/
structure Digits where
  /-- The decimal digits, of which the first is not zero unless it is the only one. -/
  digits : List Char
  /-- The number of digits before the point; negative for zeros behind it. -/
  point : Int
  deriving DecidableEq, Repr

/-- The shortest decimal for the finite double number `code`. The search starts on a grid that is
too coarse for any digit: `302 / 1000` is above the logarithm of two. -/
def shortest (code : Nat) : Digits :=
  if code = 0 then ⟨['0'], 1⟩
  else
    let (coefficient, place) := firstGrid code ((tenths code).log2 * 302 / 1000 + 1)
    let digits := Nat.toDigits 10 coefficient
    ⟨digits, (digits.length + place : Nat) - unitPlaces⟩

end Lox.Decimal
