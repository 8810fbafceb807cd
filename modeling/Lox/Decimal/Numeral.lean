import Lox.Decimal.Binary64

/-!
# Reading numerals

A numeral is a run of digits with an optional fraction. It stands for the double nearest to it.
-/
namespace Lox.Decimal

-- Powers below are those of `Nat` itself, also where other powers are in scope.
attribute [local instance (high)] instPowNat

/-- The value of a decimal digit. -/
def digitValue (c : Char) : Nat :=
  c.toNat - '0'.toNat

/-- The number that a run of decimal digits stands for. -/
def ofDigits (digits : List Char) : Nat :=
  digits.foldl (fun value c => 10 * value + digitValue c) 0

@[simp] theorem ofDigits_nil : ofDigits [] = 0 := rfl

theorem ofDigits_concat (digits : List Char) (c : Char) :
    ofDigits (digits ++ [c]) = 10 * ofDigits digits + digitValue c := by
  simp [ofDigits]

/-- The double nearest to the numeral with these digits before and behind its point, unless it
rounds to infinity. -/
def ofNumeral (whole fraction : List Char) : Option Float :=
  nearest? (ofDigits (whole ++ fraction)) (10 ^ fraction.length)

end Lox.Decimal
