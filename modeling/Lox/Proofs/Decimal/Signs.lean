import Mathlib
import Lox.Decimal.Binary64

/-!
# Numbers and signs

A finite double is given by its number and its sign, and changing the sign keeps the number.
-/
namespace Lox.Decimal
open Float.Model UnpackedFloat

-- Powers below are those of `Nat` itself, also where other powers are in scope.
attribute [local instance (high)] instPowNat

variable {x : Float} {a b : BitVec Format.binary64.numBits}

section Fields

theorem toNat_unpackExponent (b : BitVec Format.binary64.numBits) :
    (unpackExponent b).toNat = b.toNat / 2 ^ 52 % 2 ^ 11 := by
  simp only [unpackExponent, BitVec.toNat_cast, BitVec.extractLsb_toNat, Nat.shiftRight_eq_div_pow]

theorem toNat_unpackMantissa (b : BitVec Format.binary64.numBits) :
    (unpackMantissa b).toNat = b.toNat % 2 ^ 52 := by
  simp only [unpackMantissa, BitVec.toNat_cast, BitVec.extractLsb_toNat, Nat.shiftRight_zero]

theorem toNat_unpackSign (b : BitVec Format.binary64.numBits) :
    (unpackSign b).toNat = b.toNat / 2 ^ 63 := by
  have hbits : b.toNat < 2 ^ 64 := b.isLt
  simp only [unpackSign, BitVec.toNat_cast, BitVec.extractLsb_toNat, Nat.shiftRight_eq_div_pow]
  exact Nat.mod_eq_of_lt (Nat.div_lt_of_lt_mul hbits)

/-- Bit patterns that differ in their signs stand for opposite numbers. -/
theorem unpack_eq_neg (hlower : a.toNat % 2 ^ 63 = b.toNat % 2 ^ 63)
    (ha : a.toNat < 2 ^ 63) (hb : 2 ^ 63 ≤ b.toNat) :
    UnpackedFloat.unpack .binary64 a = (UnpackedFloat.unpack .binary64 b).neg := by
  have hmantissa : unpackMantissa a = unpackMantissa b := by
    apply BitVec.eq_of_toNat_eq
    rw [toNat_unpackMantissa, toNat_unpackMantissa]
    omega
  have hexponent : unpackExponent a = unpackExponent b := by
    apply BitVec.eq_of_toNat_eq
    rw [toNat_unpackExponent, toNat_unpackExponent]
    omega
  have hpositive : unpackSign a = 0#1 := by
    apply BitVec.eq_of_toNat_eq
    rw [toNat_unpackSign, Nat.div_eq_of_lt ha]
    rfl
  have hnegative : unpackSign b = 1#1 := by
    apply BitVec.eq_of_toNat_eq
    have hbits : b.toNat < 2 ^ 64 := b.isLt
    rw [toNat_unpackSign]
    change _ = 1
    omega
  have hsign : Sign.ofBitVec (unpackSign a) = -Sign.ofBitVec (unpackSign b) := by
    rw [hpositive, hnegative]
    rfl
  unfold UnpackedFloat.unpack
  simp only [hmantissa, hexponent, hsign]
  split_ifs <;> rfl

end Fields

theorem isFinite_iff : x.isFinite = true ↔ x.isNaN = false ∧ x.isInf = false := by
  unfold Float.isFinite Float.isNaN Float.isInf Float.Model.isFinite Float.Model.isNaN
    Float.Model.isInf
  cases x.toModel.unpack <;> simp [UnpackedFloat.isFinite, UnpackedFloat.isNaN, UnpackedFloat.isInf]

/-- A finite double has a number below that of infinity. -/
theorem codeOf_lt_infinityCode (h : x.isFinite = true) : codeOf x < infinityCode := by
  by_contra hge
  have hexponent : @unpackExponent .binary64 x.toBits.toBitVec =
      -BitVec.ofNat Format.binary64.exponentBits 1 := by
    apply BitVec.eq_of_toNat_eq
    have hones : (-BitVec.ofNat Format.binary64.exponentBits 1).toNat = 2047 := rfl
    rw [toNat_unpackExponent, hones, UInt64.toNat_toBitVec]
    change ¬x.toBits.toNat % 2 ^ 63 < 2047 * 2 ^ 52 at hge
    omega
  have hunpack : (UnpackedFloat.unpack .binary64 x.toBits.toBitVec).isFinite = true := h
  unfold UnpackedFloat.unpack at hunpack
  simp only [hexponent, if_true] at hunpack
  split_ifs at hunpack <;> cases hunpack

/-- A finite double without a sign is given by its number. -/
theorem eq_ofCode (h : x.isFinite = true) (hsign : isNegative x = false) :
    x = ofCode (codeOf x) (codeOf_lt_infinityCode h) := by
  have hbits : x.toBits.toNat < 2 ^ signPlace := Nat.not_le.mp (of_decide_eq_false hsign)
  rw [← Float.toBits_inj, toBits_ofCode, ← UInt64.toNat_inj,
    toNat_ofNat_of_lt_infinityCode (codeOf_lt_infinityCode h), codeOf, Nat.mod_eq_of_lt hbits]

/-- The opposite of a finite double with a sign has the same number, without a sign. -/
theorem neg_eq_ofCode (h : x.isFinite = true) (hsign : isNegative x = true) :
    -x = ofCode (codeOf x) (codeOf_lt_infinityCode h) := by
  have hcode := codeOf_lt_infinityCode h
  have hbits : 2 ^ signPlace ≤ x.toBits.toNat := of_decide_eq_true hsign
  generalize hopposite : ofCode (codeOf x) hcode = y
  have hy : y.toBits.toNat = codeOf x := by
    rw [← hopposite, toBits_ofCode, toNat_ofNat_of_lt_infinityCode hcode]
  have hcodes : codeOf x < 2 ^ signPlace := Nat.mod_lt _ (by decide)
  have hunpack : UnpackedFloat.unpack .binary64 y.toBits.toBitVec =
      (UnpackedFloat.unpack .binary64 x.toBits.toBitVec).neg := by
    refine unpack_eq_neg ?_ ?_ ?_
    · rw [UInt64.toNat_toBitVec, UInt64.toNat_toBitVec, hy, codeOf, Nat.mod_mod]
    · rwa [UInt64.toNat_toBitVec, hy]
    · rwa [UInt64.toNat_toBitVec]
  rw [← Float.toBits_inj, ← UInt64.toBitVec_inj]
  calc (-x).toBits.toBitVec
      = (UnpackedFloat.unpack .binary64 x.toBits.toBitVec).neg.pack .binary64 := rfl
    _ = (UnpackedFloat.unpack .binary64 y.toBits.toBitVec).pack .binary64 := by rw [hunpack]
    _ = y.toBits.toBitVec := pack_unpack_of_valid y.toModel.valid

end Lox.Decimal
