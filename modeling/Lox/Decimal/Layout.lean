import Lox.Decimal.Shortest

/-!
# Number texts

Three texts of one number: exact (for tables of values), shown (for what a program prints) and
source (for program text, which knows no exponent). They share the shortest digits and differ in the
decisions of a `Layout`.
-/
namespace Lox.Decimal

/-- How a number is laid out. -/
structure Layout where
  /-- Write `.0` behind a whole number. -/
  wholePoint : Bool
  /-- The exponents `e` of `d.ddd * 10 ^ e` that are written without exponent, from the first up to
  but without the second; all of them when absent. -/
  positional : Option (Int × Int)
  infinity : String
  nan : String

/-- Shortest digits, an exponent from `10 ^ 16` up and below `10 ^ -4`, a point in every number
without exponent. -/
def Layout.exact : Layout := ⟨true, some (-4, 16), "inf", "nan"⟩

/-- As `exact`, but a whole number has no point. -/
def Layout.shown : Layout := ⟨false, some (-4, 16), "inf", "nan"⟩

/-- Never an exponent, and no point in a whole number. -/
def Layout.source : Layout := ⟨false, none, "Infinity", "NaN"⟩

/-- The digits before and behind the point. -/
def Digits.split (d : Digits) : List Char × List Char :=
  if d.point ≤ 0 then (['0'], List.replicate (-d.point).toNat '0' ++ d.digits)
  else
    let whole := d.point.toNat
    (d.digits.take whole ++ List.replicate (whole - d.digits.length) '0', d.digits.drop whole)

/-- The decimal without an exponent. -/
def Digits.plain (wholePoint : Bool) (d : Digits) : List Char :=
  match d.split with
  | (whole, []) => if wholePoint then whole ++ ['.', '0'] else whole
  | (whole, fraction) => whole ++ '.' :: fraction

/-- The decimal with one digit before the point and an exponent of at least two digits. -/
def Digits.scientific (d : Digits) : List Char :=
  let exponent := d.point - 1
  let significand :=
    match d.digits with
    | first :: second :: rest => first :: '.' :: second :: rest
    | digits => digits
  let size := Nat.toDigits 10 exponent.natAbs
  significand ++ 'e' :: (if exponent < 0 then '-' else '+') ::
    (List.replicate (2 - size.length) '0' ++ size)

/-- The text of a positive decimal. -/
def Layout.digits (layout : Layout) (d : Digits) : List Char :=
  match layout.positional with
  | none => d.plain layout.wholePoint
  | some (least, bound) =>
    if least ≤ d.point - 1 && d.point - 1 < bound then d.plain layout.wholePoint else d.scientific

/-- The text of the number `x`. -/
def Layout.text (layout : Layout) (x : Float) : String :=
  if x.isNaN then layout.nan
  else
    (if isNegative x then "-" else "") ++
      if x.isInf then layout.infinity else String.ofList (layout.digits (shortest (codeOf x)))

example : Layout.exact.text 0.1 = "0.1" := by decide +kernel
example : Layout.exact.text 1e16 = "1e+16" := by decide +kernel
example : Layout.exact.text (ofCode 1 (by decide)) = "5e-324" := by decide +kernel
example : Layout.shown.text 1 = "1" := by decide +kernel
example : Layout.source.text 1e-7 = "0.0000001" := by decide +kernel

end Lox.Decimal
