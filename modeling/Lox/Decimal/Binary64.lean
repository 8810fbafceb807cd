/-!
# Finite doubles as whole numbers

The finite doubles without a sign, in increasing order, are numbered by their bit patterns. All of
them are whole multiples of the least positive one, `2 ^ -1074`, so that values can be compared and
rounded in `Nat` without loss: `units code` is the value of the double with that number, counted in
multiples of `2 ^ -1074`, and `nearestCode` is its inverse up to rounding.
-/
namespace Lox.Decimal

-- Powers below are those of `Nat` itself, also where other powers are in scope.
attribute [local instance (high)] instPowNat

/-- The number of bits of a significand behind its first one. -/
abbrev fractionBits : Nat := 52

/-- The place of the bit that tells the sign. -/
abbrev signPlace : Nat := 63

/-- The least positive double is two to the power of minus this. -/
abbrev unitPlaces : Nat := 1074

/-- The number of positive infinity. The finite doubles without a sign are those below it. -/
def infinityCode : Nat := 2047 * 2 ^ fractionBits

/-- The value of the double number `code`, counted in multiples of `2 ^ -1074`. Twice
`2 ^ fractionBits` doubles are evenly spaced from zero on; then the distance doubles with every
further `2 ^ fractionBits` of them. -/
def units (code : Nat) : Nat :=
  if code < 2 ^ fractionBits then code
  else (2 ^ fractionBits + code % 2 ^ fractionBits) * 2 ^ (code / 2 ^ fractionBits - 1)

@[simp] theorem units_zero : units 0 = 0 := rfl

/-- The whole number nearest to `num / den`; a half goes to the even neighbour. -/
def roundHalfEven (num den : Nat) : Nat :=
  let low := num / den
  match compare (2 * (num % den)) den with
  | .lt => low
  | .gt => low + 1
  | .eq => low + low % 2

/-- The number of the double nearest to `num / den`, in which the significand is rounded half to
even at the spacing that belongs to the size of the quotient. A quotient that rounds beyond the
greatest finite double gets a number that is not below `infinityCode`. -/
def nearestCode (num den : Nat) : Nat :=
  let scaled := num * 2 ^ unitPlaces
  let spacing := (scaled / den).log2 - fractionBits
  spacing * 2 ^ fractionBits + roundHalfEven scaled (den * 2 ^ spacing)

/-- The number of `x` without its sign. -/
def codeOf (x : Float) : Nat :=
  x.toBits.toNat % 2 ^ signPlace

/-- Whether the sign bit of `x` is set. -/
def isNegative (x : Float) : Bool :=
  2 ^ signPlace ≤ x.toBits.toNat

theorem toNat_ofNat_of_lt_infinityCode {code : Nat} (h : code < infinityCode) :
    (UInt64.ofNat code).toNat = code :=
  UInt64.toNat_ofNat_of_lt' (Nat.lt_trans h (by decide))

/-- The finite double number `code`. -/
def ofCode (code : Nat) (h : code < infinityCode) : Float :=
  .ofModel ⟨UInt64.ofNat code, by
    refine ⟨fun hexp _ => absurd (congrArg BitVec.toNat hexp) ?_⟩
    simp only [Float.Model.UnpackedFloat.unpackExponent, BitVec.toNat_cast, BitVec.extractLsb_toNat,
      UInt64.toNat_toBitVec, toNat_ofNat_of_lt_infinityCode h, Nat.shiftRight_eq_div_pow]
    have hdiv : code / 2 ^ fractionBits < 2047 := Nat.div_lt_of_lt_mul (Nat.mul_comm .. ▸ h)
    rw [Nat.mod_eq_of_lt (Nat.lt_trans hdiv (by decide))]
    exact Nat.ne_of_lt hdiv⟩

theorem toBits_ofCode (code : Nat) (h : code < infinityCode) :
    (ofCode code h).toBits = UInt64.ofNat code := rfl

@[simp] theorem codeOf_ofCode (code : Nat) (h : code < infinityCode) :
    codeOf (ofCode code h) = code := by
  rw [codeOf, toBits_ofCode, toNat_ofNat_of_lt_infinityCode h]
  exact Nat.mod_eq_of_lt (Nat.lt_trans h (by decide))

@[simp] theorem isNegative_ofCode (code : Nat) (h : code < infinityCode) :
    isNegative (ofCode code h) = false := by
  rw [isNegative, toBits_ofCode, toNat_ofNat_of_lt_infinityCode h]
  exact decide_eq_false (Nat.not_le_of_lt (Nat.lt_trans h (by decide)))

/-- The double nearest to `num / den`, unless that is beyond the greatest finite one. -/
def nearest? (num den : Nat) : Option Float :=
  if h : nearestCode num den < infinityCode then some (ofCode _ h) else none

end Lox.Decimal
