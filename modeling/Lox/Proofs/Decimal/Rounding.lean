import Lox.Decimal.Shortest
import Mathlib.Tactic.Ring

/-!
# Rounding to the nearest double

A positive double is a significand times a power of two, and its neighbours are the significands next
to it, only below a power of two the lower neighbour is half as far away. A quotient between the
midpoints to both neighbours is rounded to the double.
-/
namespace Lox.Decimal

-- Powers below are those of `Nat` itself, also where other powers are in scope.
attribute [local instance (high)] instPowNat

/-- A quotient that is at most a half away from a whole number, and less than that from an odd one. -/
theorem roundHalfEven_eq {num den m : Nat} (hlow : 2 * (m * den) ≤ 2 * num + den)
    (hhigh : 2 * num ≤ 2 * (m * den) + den)
    (heven : m % 2 = 0 ∨ 2 * (m * den) < 2 * num + den ∧ 2 * num < 2 * (m * den) + den)
    (hden : 0 < den) : roundHalfEven num den = m := by
  have hsplit := Nat.div_add_mod num den
  have hrest := Nat.mod_lt num hden
  have hlt : num < (m + 1) * den := by
    rw [Nat.add_mul]
    omega
  have hquotient : num / den ≤ m := Nat.lt_succ_iff.mp ((Nat.div_lt_iff_lt_mul hden).mpr hlt)
  unfold roundHalfEven
  rcases Nat.lt_or_ge num (m * den) with hbelow | habove
  · -- The quotient is just below `m`.
    obtain ⟨k, rfl⟩ : ∃ k, m = k + 1 := ⟨m - 1, by
      rcases Nat.eq_zero_or_pos m with rfl | hpos
      · rw [Nat.zero_mul] at hbelow
        omega
      · omega⟩
    have hexpand : (k + 1) * den = k * den + den := Nat.succ_mul k den
    have hk : num / den = k := Nat.div_eq_of_lt_le (by omega) (by omega)
    rw [hk] at hsplit ⊢
    rw [Nat.mul_comm den k] at hsplit
    rcases Nat.lt_trichotomy (2 * (num % den)) den with hless | hequal | hmore
    · omega
    · rw [Nat.compare_eq_eq.mpr hequal]
      simp only
      omega
    · rw [Nat.compare_eq_gt.mpr hmore]
  · have hm : num / den = m := Nat.le_antisymm hquotient ((Nat.le_div_iff_mul_le hden).mpr habove)
    rw [hm] at hsplit ⊢
    rw [Nat.mul_comm den m] at hsplit
    rcases Nat.lt_trichotomy (2 * (num % den)) den with hless | hequal | hmore
    · rw [Nat.compare_eq_lt.mpr hless]
    · rw [Nat.compare_eq_eq.mpr hequal]
      simp only
      omega
    · omega

/-- The value of a double with significand `m`, `exponent` powers of two above the finest spacing. -/
theorem units_eq {exponent m : Nat} (hm : m ≤ 2 ^ 53) (hnormal : exponent = 0 ∨ 2 ^ 52 ≤ m) :
    units (exponent * 2 ^ 52 + m) = m * 2 ^ exponent := by
  unfold units
  rcases Nat.lt_or_ge (exponent * 2 ^ 52 + m) (2 ^ 52) with hless | hge
  · have hzero : exponent = 0 := by omega
    subst hzero
    rw [if_pos hless]
    omega
  · rw [if_neg (Nat.not_lt.mpr hge)]
    have hm' : 2 ^ 52 ≤ m := by omega
    rcases Nat.lt_or_ge m (2 ^ 53) with hlt | hmax
    · have hdiv : (exponent * 2 ^ 52 + m) / 2 ^ 52 = exponent + 1 := by omega
      have hmod : (exponent * 2 ^ 52 + m) % 2 ^ 52 = m - 2 ^ 52 := by omega
      rw [hdiv, hmod, Nat.add_sub_cancel' hm', Nat.add_sub_cancel]
    · have hdiv : (exponent * 2 ^ 52 + m) / 2 ^ 52 = exponent + 2 := by omega
      have hmod : (exponent * 2 ^ 52 + m) % 2 ^ 52 = 0 := by omega
      have hm53 : m = 2 ^ 52 * 2 := by omega
      rw [hdiv, hmod, hm53, Nat.add_zero, Nat.mul_assoc, ← Nat.pow_succ']
      rfl

/-- Every number of a double has a significand and an exponent. -/
theorem exists_significand (code : Nat) : ∃ exponent m, code = exponent * 2 ^ 52 + m ∧ m < 2 ^ 53 ∧
    (exponent = 0 ∨ 2 ^ 52 ≤ m) := by
  refine ⟨code / 2 ^ 52 - 1, code - (code / 2 ^ 52 - 1) * 2 ^ 52, ?_, ?_, ?_⟩ <;> omega

theorem units_lt_units_succ (code : Nat) : units code < units (code + 1) := by
  obtain ⟨exponent, m, rfl, hm, hnormal⟩ := exists_significand code
  rw [Nat.add_assoc, units_eq (Nat.le_of_lt hm) hnormal,
    units_eq hm (hnormal.imp_right Nat.le_succ_of_le)]
  exact Nat.mul_lt_mul_of_pos_right (Nat.lt_succ_self m) (Nat.two_pow_pos exponent)

/-- The spacing at the size of a quotient. -/
theorem spacing_eq {num den exponent : Nat} (hden : 0 < den)
    (hlow : exponent = 0 ∨ 2 ^ 52 * (den * 2 ^ exponent) ≤ num)
    (hhigh : num < 2 ^ 53 * (den * 2 ^ exponent)) :
    (num / den).log2 - fractionBits = exponent := by
  change (num / den).log2 - 52 = exponent
  have hupper : num / den < 2 ^ (53 + exponent) := by
    rw [Nat.div_lt_iff_lt_mul hden, Nat.pow_add, Nat.mul_assoc, Nat.mul_comm (2 ^ exponent) den]
    exact hhigh
  have hlog : (num / den).log2 < 53 + exponent := by
    by_cases hzero : num / den = 0
    · rw [hzero, Nat.log2_zero]
      omega
    · exact (Nat.log2_lt hzero).mpr hupper
  rcases hlow with rfl | hlow
  · omega
  · have hlower : 2 ^ (52 + exponent) ≤ num / den := by
      rw [Nat.le_div_iff_mul_le hden, Nat.pow_add, Nat.mul_assoc, Nat.mul_comm (2 ^ exponent) den]
      exact hlow
    have hzero : num / den ≠ 0 :=
      Nat.ne_of_gt (Nat.lt_of_lt_of_le (Nat.two_pow_pos (52 + exponent)) hlower)
    have hlog' := (Nat.le_log2 hzero).mpr hlower
    omega

/-- A quotient whose significand has at most 53 bits at some spacing is rounded at this spacing. -/
theorem nearestCode_eq {num den exponent m : Nat} (hden : 0 < den)
    (hsize : exponent = 0 ∨ 2 ^ 52 * (den * 2 ^ exponent) ≤ num * 2 ^ unitPlaces)
    (hsize' : num * 2 ^ unitPlaces < 2 ^ 53 * (den * 2 ^ exponent))
    (hlow : 2 * (m * (den * 2 ^ exponent)) ≤ 2 * (num * 2 ^ unitPlaces) + den * 2 ^ exponent)
    (hhigh : 2 * (num * 2 ^ unitPlaces) ≤ 2 * (m * (den * 2 ^ exponent)) + den * 2 ^ exponent)
    (heven : m % 2 = 0 ∨
      2 * (m * (den * 2 ^ exponent)) < 2 * (num * 2 ^ unitPlaces) + den * 2 ^ exponent ∧
        2 * (num * 2 ^ unitPlaces) < 2 * (m * (den * 2 ^ exponent)) + den * 2 ^ exponent) :
    nearestCode num den = exponent * 2 ^ 52 + m := by
  have hround := roundHalfEven_eq hlow hhigh heven (Nat.mul_pos hden (Nat.two_pow_pos exponent))
  unfold nearestCode
  simp only [spacing_eq hden hsize hsize', hround]

/-- Whether a quotient is between the midpoints from a double to its neighbours, and on one of them
only if the double is even; `scaled / den` is the quotient counted in multiples of `2 ^ -1074`. -/
def Between (code scaled den : Nat) : Prop :=
  if code % 2 = 0 then
    (units (code - 1) + units code) * den ≤ 2 * scaled ∧
      2 * scaled ≤ (units code + units (code + 1)) * den
  else
    (units (code - 1) + units code) * den < 2 * scaled ∧
      2 * scaled < (units code + units (code + 1)) * den

section Neighbours
variable {num den exponent m : Nat}

/-- With the lower neighbour at the same distance as the upper one. -/
theorem nearestCode_of_between_significands (hden : 0 < den) (hm : m < 2 ^ 53)
    (hnormal : exponent = 0 ∧ 0 < m ∨ 2 ^ 52 < m)
    (h : Between (exponent * 2 ^ 52 + m) (num * 2 ^ unitPlaces) den) :
    nearestCode num den = exponent * 2 ^ 52 + m := by
  have hspacing : 0 < den * 2 ^ exponent := Nat.mul_pos hden (Nat.two_pow_pos exponent)
  have hpred : exponent * 2 ^ 52 + m - 1 = exponent * 2 ^ 52 + (m - 1) := by omega
  have hbelow : units (exponent * 2 ^ 52 + (m - 1)) = (m - 1) * 2 ^ exponent :=
    units_eq (by omega) (by omega)
  have hvalue : units (exponent * 2 ^ 52 + m) = m * 2 ^ exponent :=
    units_eq (by omega) (by omega)
  have habove : units (exponent * 2 ^ 52 + (m + 1)) = (m + 1) * 2 ^ exponent :=
    units_eq (by omega) (by omega)
  have hparity : (exponent * 2 ^ 52 + m) % 2 = m % 2 := by omega
  have hlow : ((m - 1) * 2 ^ exponent + m * 2 ^ exponent) * den + den * 2 ^ exponent =
      2 * (m * (den * 2 ^ exponent)) := by
    obtain ⟨k, rfl⟩ : ∃ k, m = k + 1 := ⟨m - 1, by omega⟩
    rw [Nat.add_sub_cancel]
    ring
  have hhigh : (m * 2 ^ exponent + (m + 1) * 2 ^ exponent) * den =
      2 * (m * (den * 2 ^ exponent)) + den * 2 ^ exponent := by ring
  unfold Between at h
  rw [hpred, hbelow, hvalue, Nat.add_assoc, habove, hparity, hhigh] at h
  have hupper : m * (den * 2 ^ exponent) ≤ (2 ^ 53 - 1) * (den * 2 ^ exponent) :=
    Nat.mul_le_mul_right _ (by omega)
  have hlower : exponent = 0 ∨ (2 ^ 52 + 1) * (den * 2 ^ exponent) ≤ m * (den * 2 ^ exponent) :=
    hnormal.imp (fun h => h.1) fun h => Nat.mul_le_mul_right _ h
  have hmiddle : 2 * (m * (den * 2 ^ exponent)) ≤ 2 * (num * 2 ^ unitPlaces) + den * 2 ^ exponent ∧
      2 * (num * 2 ^ unitPlaces) ≤ 2 * (m * (den * 2 ^ exponent)) + den * 2 ^ exponent ∧
      (m % 2 = 0 ∨
        2 * (m * (den * 2 ^ exponent)) < 2 * (num * 2 ^ unitPlaces) + den * 2 ^ exponent ∧
          2 * (num * 2 ^ unitPlaces) < 2 * (m * (den * 2 ^ exponent)) + den * 2 ^ exponent) := by
    generalize num * 2 ^ unitPlaces = scaled at h ⊢
    split at h <;> omega
  obtain ⟨hlow', hhigh', heven⟩ := hmiddle
  refine nearestCode_eq hden ?_ ?_ hlow' hhigh' heven
  · generalize num * 2 ^ unitPlaces = scaled at hlow' ⊢
    omega
  · generalize num * 2 ^ unitPlaces = scaled at hhigh' ⊢
    omega

/-- With the lower neighbour at half the distance of the upper one. -/
theorem nearestCode_of_between_powers (hden : 0 < den)
    (h : Between ((exponent + 1) * 2 ^ 52 + 2 ^ 52) (num * 2 ^ unitPlaces) den) :
    nearestCode num den = (exponent + 1) * 2 ^ 52 + 2 ^ 52 := by
  have hspacing : 0 < den * 2 ^ exponent := Nat.mul_pos hden (Nat.two_pow_pos exponent)
  have hpred : (exponent + 1) * 2 ^ 52 + 2 ^ 52 - 1 = exponent * 2 ^ 52 + (2 ^ 53 - 1) := by omega
  have hbelow : units (exponent * 2 ^ 52 + (2 ^ 53 - 1)) = (2 ^ 53 - 1) * 2 ^ exponent :=
    units_eq (by omega) (by omega)
  have hvalue : units ((exponent + 1) * 2 ^ 52 + 2 ^ 52) = 2 ^ 52 * 2 ^ (exponent + 1) :=
    units_eq (by omega) (by omega)
  have habove : units ((exponent + 1) * 2 ^ 52 + (2 ^ 52 + 1)) = (2 ^ 52 + 1) * 2 ^ (exponent + 1) :=
    units_eq (by omega) (by omega)
  have hdouble : den * 2 ^ (exponent + 1) = 2 * (den * 2 ^ exponent) := by
    rw [Nat.pow_succ]
    ring
  have hlow : ((2 ^ 53 - 1) * 2 ^ exponent + 2 ^ 52 * 2 ^ (exponent + 1)) * den =
      (2 ^ 54 - 1) * (den * 2 ^ exponent) := by
    rw [Nat.pow_succ]
    ring
  have hhigh : (2 ^ 52 * 2 ^ (exponent + 1) + (2 ^ 52 + 1) * 2 ^ (exponent + 1)) * den =
      (2 ^ 54 + 2) * (den * 2 ^ exponent) := by
    rw [Nat.pow_succ]
    ring
  unfold Between at h
  rw [if_pos (by omega), hpred, hbelow, hvalue, Nat.add_assoc, habove, hlow, hhigh] at h
  rcases Nat.lt_or_ge (num * 2 ^ unitPlaces) (2 ^ 53 * (den * 2 ^ exponent)) with hless | hge
  · -- The quotient has the spacing of the lower neighbour.
    have hnearest : nearestCode num den = exponent * 2 ^ 52 + 2 ^ 53 := by
      refine nearestCode_eq hden ?_ hless ?_ ?_ (.inl rfl) <;>
        generalize num * 2 ^ unitPlaces = scaled at * <;> omega
    rw [hnearest]
    omega
  · refine nearestCode_eq hden ?_ ?_ ?_ ?_ (.inl rfl) <;> rw [hdouble] <;>
      generalize num * 2 ^ unitPlaces = scaled at * <;> omega

end Neighbours

/-- A quotient between the midpoints to the neighbours of a double is rounded to the double. -/
theorem nearestCode_of_between {num den code : Nat} (hcode : 0 < code) (hden : 0 < den)
    (h : Between code (num * 2 ^ unitPlaces) den) : nearestCode num den = code := by
  obtain ⟨exponent, m, rfl, hm, hnormal⟩ := exists_significand code
  by_cases hpower : 0 < exponent ∧ m = 2 ^ 52
  · obtain ⟨hpos, rfl⟩ := hpower
    obtain ⟨less, rfl⟩ : ∃ less, exponent = less + 1 := ⟨exponent - 1, by omega⟩
    exact nearestCode_of_between_powers hden h
  · exact nearestCode_of_between_significands hden hm (by omega) h

end Lox.Decimal
