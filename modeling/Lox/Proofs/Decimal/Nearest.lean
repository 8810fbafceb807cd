import Lox.Decimal.Numeral
import Lox.Proofs.Decimal.Rounding
import Mathlib.Algebra.Order.Field.Rat
import Mathlib.Tactic.Linarith

/-!
# What it is to be the nearest double

The doubles without a sign are rational numbers, and a quotient is read as the one that is nearest to
it. Of two that are equally near the even one counts. The doubles from infinity on are taken to go on
as if exponents had no bound, so a quotient that is nearest to one of these is too great.
-/
namespace Lox.Decimal

-- Powers below are those of `Nat` itself, also where other powers are in scope.
attribute [local instance (high)] instPowNat

/-- The double number `code` as a rational number. -/
def value (code : Nat) : ℚ :=
  (units code : ℚ) / (2 ^ unitPlaces : Nat)

/-- The number that a numeral stands for, by its digits before and behind the point. -/
def numeralValue (whole fraction : List Char) : ℚ :=
  (ofDigits (whole ++ fraction) : ℚ) / (10 ^ fraction.length : Nat)

/-- The double nearest to `x`, the even one of two that are equally near. -/
structure Nearest (x : ℚ) (code : Nat) : Prop where
  closest : ∀ other, |x - value code| ≤ |x - value other|
  even : ∀ other, |x - value other| = |x - value code| → other = code ∨ code % 2 = 0

theorem units_strictMono : StrictMono units :=
  strictMono_nat_of_lt_succ units_lt_units_succ

theorem value_strictMono : StrictMono value := by
  intro code other h
  have hpos : (0 : ℚ) < (2 ^ unitPlaces : Nat) := by exact_mod_cast Nat.two_pow_pos unitPlaces
  unfold value
  gcongr
  exact units_strictMono h

section Midpoints
variable {x : ℚ} {code other : Nat}

/-- What is not above a midpoint is not nearer to the upper one. -/
theorem abs_sub_le_of_le_midpoint {a b : ℚ} (hab : a ≤ b) (h : 2 * x ≤ a + b) :
    |x - a| ≤ |x - b| := by
  have hright : |x - b| = b - x := by rw [abs_sub_comm]; exact abs_of_nonneg (by linarith)
  rw [hright]
  exact abs_le.mpr ⟨by linarith, by linarith⟩

theorem abs_sub_le_of_midpoint_le {a b : ℚ} (hab : a ≤ b) (h : a + b ≤ 2 * x) :
    |x - b| ≤ |x - a| := by
  have hleft : |x - a| = x - a := abs_of_nonneg (by linarith)
  rw [hleft]
  exact abs_le.mpr ⟨by linarith, by linarith⟩

/-- What is as near to one number as to another is their midpoint. -/
theorem midpoint_of_abs_sub_eq {a b : ℚ} (hab : a ≠ b) (h : |x - a| = |x - b|) : 2 * x = a + b := by
  rcases abs_eq_abs.mp h with heq | heq
  · exact absurd (by linarith) hab
  · linarith

end Midpoints

section Quotients
variable {num den code : Nat}

/-- Midpoints to neighbours, counted in units and as rational numbers. -/
theorem midpoint_le_iff (hden : 0 < den) (code other : Nat) :
    (units code + units other) * den ≤ 2 * (num * 2 ^ unitPlaces) ↔
      value code + value other ≤ 2 * ((num : ℚ) / den) := by
  have hplaces : 0 < 2 ^ unitPlaces := Nat.two_pow_pos unitPlaces
  unfold value
  generalize 2 ^ unitPlaces = places at *
  have hd : (0 : ℚ) < den := by exact_mod_cast hden
  have hp : (0 : ℚ) < places := by exact_mod_cast hplaces
  rw [← add_div, mul_div_assoc', div_le_div_iff₀ hp hd, ← Nat.cast_le (α := ℚ)]
  push_cast
  rw [mul_assoc]

theorem le_midpoint_iff (hden : 0 < den) (code other : Nat) :
    2 * (num * 2 ^ unitPlaces) ≤ (units code + units other) * den ↔
      2 * ((num : ℚ) / den) ≤ value code + value other := by
  have hplaces : 0 < 2 ^ unitPlaces := Nat.two_pow_pos unitPlaces
  unfold value
  generalize 2 ^ unitPlaces = places at *
  have hd : (0 : ℚ) < den := by exact_mod_cast hden
  have hp : (0 : ℚ) < places := by exact_mod_cast hplaces
  rw [← add_div, mul_div_assoc', div_le_div_iff₀ hd hp, ← Nat.cast_le (α := ℚ)]
  push_cast
  rw [mul_assoc]

/-- A quotient lies between two midpoints, as rational numbers. -/
theorem between_iff (hden : 0 < den) : Between code (num * 2 ^ unitPlaces) den ↔
    if code % 2 = 0 then value (code - 1) + value code ≤ 2 * ((num : ℚ) / den) ∧
      2 * ((num : ℚ) / den) ≤ value code + value (code + 1)
    else value (code - 1) + value code < 2 * ((num : ℚ) / den) ∧
      2 * ((num : ℚ) / den) < value code + value (code + 1) := by
  unfold Between
  rw [midpoint_le_iff hden, le_midpoint_iff hden, ← not_le, ← not_le, midpoint_le_iff hden,
    le_midpoint_iff hden, not_le, not_le]

/-- What lies between the midpoints to its neighbours is nearest. -/
theorem Nearest.of_between (hden : 0 < den) (h : Between code (num * 2 ^ unitPlaces) den) :
    Nearest ((num : ℚ) / den) code := by
  rw [between_iff hden] at h
  have hweak : value (code - 1) + value code ≤ 2 * ((num : ℚ) / den) ∧
      2 * ((num : ℚ) / den) ≤ value code + value (code + 1) := by
    split at h
    · exact h
    · exact ⟨h.1.le, h.2.le⟩
  have hbelow : ∀ other < code, value other ≤ value (code - 1) := fun other hless =>
    value_strictMono.monotone (by omega)
  have habove : ∀ other > code, value (code + 1) ≤ value other := fun other hmore =>
    value_strictMono.monotone hmore
  constructor
  · intro other
    rcases Nat.lt_trichotomy other code with hless | rfl | hmore
    · refine abs_sub_le_of_midpoint_le (value_strictMono hless).le ?_
      linarith [hbelow other hless]
    · exact le_rfl
    · refine abs_sub_le_of_le_midpoint (value_strictMono hmore).le ?_
      linarith [habove other hmore]
  · intro other heq
    by_contra hnot
    obtain ⟨hne, hodd⟩ := not_or.mp hnot
    rw [if_neg hodd] at h
    have hmid := midpoint_of_abs_sub_eq (value_strictMono.injective.ne hne) heq
    rcases Nat.lt_or_gt_of_ne hne with hless | hmore
    · linarith [hbelow other hless]
    · linarith [habove other hmore]

/-- What is nearest lies between the midpoints to its neighbours. -/
theorem Nearest.between (hden : 0 < den) (h : Nearest ((num : ℚ) / den) code) :
    Between code (num * 2 ^ unitPlaces) den := by
  rw [between_iff hden]
  have hupper : value code < value (code + 1) := value_strictMono (Nat.lt_succ_self code)
  have hhigh : 2 * ((num : ℚ) / den) ≤ value code + value (code + 1) := by
    by_contra hlt
    have hcloser := abs_sub_le_of_midpoint_le hupper.le (not_le.mp hlt).le
    linarith [midpoint_of_abs_sub_eq hupper.ne (le_antisymm (h.closest (code + 1)) hcloser)]
  have hlow : value (code - 1) + value code ≤ 2 * ((num : ℚ) / den) := by
    rcases Nat.eq_zero_or_pos code with rfl | hpos
    · have hzero : value (0 - 1) + value 0 = 0 := by
        simp only [Nat.zero_sub, value, units_zero, Nat.cast_zero, zero_div, add_zero]
      rw [hzero]
      exact mul_nonneg zero_le_two (div_nonneg (Nat.cast_nonneg num) (Nat.cast_nonneg den))
    · have hlower : value (code - 1) < value code := value_strictMono (Nat.sub_lt hpos Nat.one_pos)
      by_contra hlt
      have hcloser := abs_sub_le_of_le_midpoint hlower.le (not_le.mp hlt).le
      linarith [midpoint_of_abs_sub_eq hlower.ne (le_antisymm hcloser (h.closest (code - 1)))]
  split
  · exact ⟨hlow, hhigh⟩
  · rename_i hodd
    have hpos : 0 < code := Nat.pos_of_ne_zero (by rintro rfl; exact hodd rfl)
    constructor
    · refine lt_of_le_of_ne hlow fun heq => ?_
      have hmid : |(num : ℚ) / den - value (code - 1)| = |(num : ℚ) / den - value code| :=
        abs_eq_abs.mpr (.inr (by linarith))
      have := (h.even (code - 1) hmid).resolve_right hodd
      omega
    · refine lt_of_le_of_ne hhigh fun heq => ?_
      have hmid : |(num : ℚ) / den - value (code + 1)| = |(num : ℚ) / den - value code| :=
        abs_eq_abs.mpr (.inr (by linarith))
      have := (h.even (code + 1) hmid).resolve_right hodd
      omega

end Quotients

section Rounding
variable {num den code : Nat}

/-- What is at most half a unit away from zero is rounded to zero. -/
theorem nearestCode_of_between_zero (hden : 0 < den) (h : Between 0 (num * 2 ^ unitPlaces) den) :
    nearestCode num den = 0 := by
  have hunit : units 1 = 1 := rfl
  have hhigh : 2 * (num * 2 ^ unitPlaces) ≤ den := by
    have hboth := h
    unfold Between at hboth
    rw [if_pos rfl, units_zero, hunit, Nat.zero_add, Nat.one_mul] at hboth
    exact hboth.2
  have hspacing : den * 2 ^ 0 = den := Nat.mul_one den
  have hzero : nearestCode num den = 0 * 2 ^ 52 + 0 := by
    refine nearestCode_eq hden (.inl rfl) ?_ ?_ ?_ (.inl rfl) <;> rw [hspacing] <;> omega
  exact hzero

/-- A quotient is rounded to the double that it lies next to. -/
theorem nearestCode_of_nearest (hden : 0 < den) (h : Nearest ((num : ℚ) / den) code) :
    nearestCode num den = code := by
  rcases Nat.eq_zero_or_pos code with rfl | hpos
  · exact nearestCode_of_between_zero hden (h.between hden)
  · exact nearestCode_of_between hpos hden (h.between hden)

theorem le_units (code : Nat) : code ≤ units code :=
  units_strictMono.id_le code

/-- Every quotient lies between the midpoints to the neighbours of some double. -/
theorem exists_between (hden : 0 < den) (num : Nat) :
    ∃ code, Between code (num * 2 ^ unitPlaces) den := by
  generalize num * 2 ^ unitPlaces = scaled
  -- The first double whose upper midpoint is not below the quotient.
  have hexists : ∃ code, 2 * scaled ≤ (units code + units (code + 1)) * den :=
    ⟨2 * scaled, Nat.le_trans (Nat.le_add_right_of_le (le_units _)) (Nat.le_mul_of_pos_right _ hden)⟩
  classical
  obtain ⟨hfirst, hleast⟩ := And.intro (Nat.find_spec hexists)
    (fun code => Nat.find_min (m := code) hexists)
  generalize Nat.find hexists = code at hfirst hleast
  have hbelow : code ≠ 0 → (units (code - 1) + units code) * den < 2 * scaled := by
    intro hne
    have hlt := hleast (code - 1) (by omega)
    rw [Nat.sub_add_cancel (Nat.pos_of_ne_zero hne)] at hlt
    exact Nat.not_le.mp hlt
  unfold Between
  by_cases heven : code % 2 = 0
  · refine ⟨code, ?_⟩
    rw [if_pos heven]
    refine ⟨?_, hfirst⟩
    rcases Nat.eq_zero_or_pos code with rfl | hpos
    · simp
    · exact (hbelow (Nat.ne_of_gt hpos)).le
  · have hne : code ≠ 0 := by
      rintro rfl
      exact heven rfl
    rcases Nat.lt_or_eq_of_le hfirst with hlt | heq
    · refine ⟨code, ?_⟩
      rw [if_neg heven]
      exact ⟨hbelow hne, hlt⟩
    · -- On the upper midpoint of an odd double the even one above counts.
      refine ⟨code + 1, ?_⟩
      rw [if_pos (by omega), Nat.add_sub_cancel, ← heq]
      refine ⟨le_rfl, ?_⟩
      rw [heq]
      exact Nat.mul_le_mul_right den (Nat.add_le_add
        (Nat.le_of_lt (units_lt_units_succ code)) (Nat.le_of_lt (units_lt_units_succ (code + 1))))

/-- Rounding gives the nearest double. -/
theorem nearest_nearestCode (hden : 0 < den) (num : Nat) :
    Nearest ((num : ℚ) / den) (nearestCode num den) := by
  obtain ⟨code, hcode⟩ := exists_between hden num
  have hnearest := Nearest.of_between hden hcode
  rwa [nearestCode_of_nearest hden hnearest]

end Rounding

section Numerals
variable {whole fraction : List Char} {code : Nat}

/-- A numeral is read as the nearest double. -/
theorem ofNumeral_eq_some_iff {x : Float} : ofNumeral whole fraction = some x ↔
    ∃ (code : Nat) (h : code < infinityCode), Nearest (numeralValue whole fraction) code ∧
      x = ofCode code h := by
  have hden : 0 < 10 ^ fraction.length := Nat.pow_pos (by decide)
  unfold ofNumeral nearest?
  constructor
  · intro h
    split at h
    · rename_i hfinite
      cases h
      exact ⟨_, hfinite, nearest_nearestCode hden _, rfl⟩
    · cases h
  · rintro ⟨code, hfinite, hnearest, rfl⟩
    obtain rfl := nearestCode_of_nearest hden hnearest
    exact dif_pos hfinite

/-- A numeral is too great when it is nearest to what would be a double from infinity on. -/
theorem ofNumeral_eq_none_iff : ofNumeral whole fraction = none ↔
    ∃ code, infinityCode ≤ code ∧ Nearest (numeralValue whole fraction) code := by
  have hden : 0 < 10 ^ fraction.length := Nat.pow_pos (by decide)
  unfold ofNumeral nearest?
  constructor
  · intro h
    split at h
    · cases h
    · rename_i hinfinite
      exact ⟨_, Nat.not_lt.mp hinfinite, nearest_nearestCode hden _⟩
  · rintro ⟨code, hinfinite, hnearest⟩
    obtain rfl := nearestCode_of_nearest hden hnearest
    exact dif_neg (Nat.not_lt.mpr hinfinite)

end Numerals

end Lox.Decimal
