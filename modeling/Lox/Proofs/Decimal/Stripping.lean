import Lox.Proofs.Decimal.ReadingBack

/-!
# Shortest decimals end in no zero

The search for a shortest decimal takes the coarsest grid with a decimal for the double. A decimal
that ends in a zero is on a coarser grid as well, so that the search would have stopped there.
-/
namespace Lox.Decimal

-- Powers below are those of `Nat` itself, also where other powers are in scope.
attribute [local instance (high)] instPowNat

variable {code coefficient other place coarse : Nat}

section Grids

theorem tenths_lt_tenths_succ (code : Nat) : tenths code < tenths (code + 1) :=
  Nat.mul_lt_mul_of_pos_right (units_lt_units_succ code) (Nat.pow_pos (by decide))

/-- What lies between a decimal that rounds to a double and the double itself rounds to it as well. -/
theorem roundsTo_of_between (hcode : 0 < code) (h : roundsTo code coefficient place = true)
    (hbetween : coefficient * 10 ^ place ≤ other * 10 ^ coarse ∧ other * 10 ^ coarse ≤ tenths code ∨
      tenths code ≤ other * 10 ^ coarse ∧ other * 10 ^ coarse ≤ coefficient * 10 ^ place) :
    roundsTo code other coarse = true := by
  have hbelow := tenths_lt_tenths_succ (code - 1)
  have habove := tenths_lt_tenths_succ code
  rw [Nat.sub_add_cancel hcode] at hbelow
  unfold roundsTo at h ⊢
  generalize coefficient * 10 ^ place = near at *
  generalize other * 10 ^ coarse = value at *
  split at h
  · rename_i heven
    rw [if_pos heven]
    simp only [Bool.and_eq_true, decide_eq_true_eq] at h ⊢
    omega
  · rename_i hodd
    rw [if_neg hodd]
    simp only [Bool.and_eq_true, decide_eq_true_eq] at h ⊢
    omega

/-- A grid with a decimal for a double has one next to the double. -/
theorem onGrid_ne_none (hcode : 0 < code) (h : roundsTo code coefficient place = true) :
    onGrid code place ≠ none := by
  have hspacing : 0 < 10 ^ place := Nat.pow_pos (by decide)
  have hsplit := Nat.div_add_mod' (tenths code) (10 ^ place)
  have hrest := Nat.mod_lt (tenths code) hspacing
  have hneighbour : roundsTo code (tenths code / 10 ^ place) place = true ∨
      roundsTo code (tenths code / 10 ^ place + 1) place = true := by
    rcases Nat.lt_or_ge (tenths code / 10 ^ place) coefficient with hless | hge
    · refine .inr (roundsTo_of_between hcode h (.inr ⟨?_, Nat.mul_le_mul_right _ hless⟩))
      rw [Nat.succ_mul]
      omega
    · exact .inl (roundsTo_of_between hcode h (.inl ⟨Nat.mul_le_mul_right _ hge, by omega⟩))
  unfold onGrid
  simp only
  split
  · rename_i hbelow habove
    rw [hbelow, habove] at hneighbour
    exact absurd hneighbour (by decide)
  all_goals nofun

/-- A decimal behind the grids that have none does not end in a zero. -/
theorem firstGrid_mod_ne_zero (hcode : 0 < code) (h : onGrid code (place + 1) = none) :
    (firstGrid code place).1 % 10 ≠ 0 := by
  intro hzero
  have hcoarse : ∀ place, onGrid code (place + 1) = none →
      onGrid code ((firstGrid code place).2 + 1) = none := by
    intro place
    induction place with
    | zero => exact id
    | succ place ih =>
      intro h
      unfold firstGrid
      split
      · exact h
      · rename_i hnone
        exact ih hnone
  have hrounds := roundsTo_firstGrid hcode place
  have hvalue : (firstGrid code place).1 / 10 * 10 ^ ((firstGrid code place).2 + 1) =
      (firstGrid code place).1 * 10 ^ (firstGrid code place).2 := by
    rw [Nat.pow_succ, Nat.mul_comm (10 ^ _), ← Nat.mul_assoc, Nat.div_mul_cancel]
    exact Nat.dvd_of_mod_eq_zero hzero
  have hshorter : roundsTo code ((firstGrid code place).1 / 10) ((firstGrid code place).2 + 1) =
      true := by
    unfold roundsTo at hrounds ⊢
    rwa [hvalue]
  exact onGrid_ne_none hcode hshorter (hcoarse place h)

end Grids

section Start

/-- Zero does not round to a positive double. -/
theorem roundsTo_zero (hcode : 0 < code) : roundsTo code 0 place = false := by
  have hbelow := tenths_lt_tenths_succ (code - 1)
  rw [Nat.sub_add_cancel hcode] at hbelow
  unfold roundsTo
  generalize tenths (code - 1) = below at *
  generalize tenths code = value at *
  simp only [Nat.zero_mul, Nat.mul_zero]
  split
  · have hpositive : ¬below + value ≤ 0 := by omega
    rw [decide_eq_false hpositive, Bool.false_and]
  · rw [decide_eq_false (Nat.not_lt_zero _), Bool.false_and]

/-- On a grid that is coarser than a double only the first decimal can round to the double. -/
theorem onGrid_eq_one (hcode : 0 < code) (hcoarse : tenths code < 10 ^ place)
    (h : onGrid code place = some coefficient) : coefficient = 1 := by
  have hdiv : tenths code / 10 ^ place = 0 := Nat.div_eq_of_lt hcoarse
  have hpositive : coefficient ≠ 0 := by
    rintro rfl
    exact absurd ((roundsTo_of_onGrid h).symm.trans (roundsTo_zero hcode)) nofun
  have hnear := roundHalfEven_eq_or (tenths code) (10 ^ place)
  unfold onGrid at h
  simp only [hdiv, Nat.zero_add] at h hnear
  split at h <;> cases h <;> omega

/-- The first decimal of a double from a coarse grid on does not end in a zero. -/
theorem firstGrid_mod_ne_zero_of_coarse (hcode : 0 < code)
    (hcoarse : tenths code < 10 ^ (place + 1)) : (firstGrid code (place + 1)).1 % 10 ≠ 0 := by
  unfold firstGrid
  split
  · rename_i coefficient hgrid
    rw [onGrid_eq_one hcode hcoarse hgrid]
    exact Nat.one_ne_zero
  · rename_i hnone
    exact firstGrid_mod_ne_zero hcode hnone

/-- Powers are compared by what is known of the logarithms of their bases. -/
theorem pow_le_pow_of_scale {a b m n k l p q : Nat} (ha : 0 < a) (hb : 0 < b) (hk : k ≠ 0)
    (hscale : a ^ p ≤ b ^ q) (hm : m * k ≤ p * l) (hn : q * l ≤ n * k) : a ^ m ≤ b ^ n := by
  rw [← Nat.pow_le_pow_iff_left hk, ← Nat.pow_mul, ← Nat.pow_mul]
  calc a ^ (m * k) ≤ a ^ (p * l) := Nat.pow_le_pow_right ha hm
    _ = (a ^ p) ^ l := Nat.pow_mul ..
    _ ≤ (b ^ q) ^ l := Nat.pow_le_pow_left hscale l
    _ = b ^ (q * l) := (Nat.pow_mul ..).symm
    _ ≤ b ^ (n * k) := Nat.pow_le_pow_right hb hn

theorem le_log2_tenths (hcode : 0 < code) : unitPlaces ≤ (tenths code).log2 := by
  have hunits : 0 < units code :=
    (Nat.zero_le _).trans_lt (Nat.sub_add_cancel hcode ▸ units_lt_units_succ (code - 1))
  have hlarge : 5 ^ unitPlaces ≤ tenths code := Nat.le_mul_of_pos_left _ hunits
  have hpositive : 0 < 5 ^ unitPlaces := Nat.pow_pos (by decide)
  rw [Nat.le_log2 (Nat.ne_of_gt (hpositive.trans_le hlarge))]
  exact (Nat.pow_le_pow_left (by decide) _).trans hlarge

/-- The search begins on a grid that is coarser than the double. -/
theorem tenths_lt_start (hcode : 0 < code) :
    tenths code < 10 ^ ((tenths code).log2 * 302 / 1000 + 1) := by
  have hlog : 1074 ≤ (tenths code).log2 := le_log2_tenths hcode
  generalize tenths code = value at *
  refine Nat.lt_log2_self.trans_le ?_
  exact pow_le_pow_of_scale (k := 1000) (l := value.log2) (p := 1003) (q := 302) (by decide)
    (by decide) (by decide) (by decide +kernel) (by omega) (by omega)

end Start

section Digits

/-- The digits behind the point end like the digits. -/
theorem getLast?_split {d : Digits} (hne : d.digits ≠ []) (h : d.digits.getLast? ≠ some '0') :
    d.split.2.getLast? ≠ some '0' := by
  unfold Digits.split
  split
  · rw [List.getLast?_append, Option.or_of_isSome (by simpa using hne)]
    exact h
  · rw [List.getLast?_drop]
    split
    · nofun
    · exact h

/-- The digits of the shortest decimal of a positive double do not end in a zero. -/
theorem getLast?_digits_shortest (hcode : 0 < code) :
    (shortest code).digits.getLast? ≠ some '0' := by
  have hcoefficient := firstGrid_mod_ne_zero_of_coarse hcode (tenths_lt_start hcode)
  unfold shortest
  rw [if_neg (Nat.ne_of_gt hcode)]
  cases hfirst : firstGrid code ((tenths code).log2 * 302 / 1000 + 1) with
  | mk coefficient place =>
    rw [hfirst] at hcoefficient
    intro hzero
    obtain ⟨front, hfront⟩ := List.getLast?_eq_some_iff.mp hzero
    have hvalue : coefficient = 10 * ofDigits front + digitValue '0' := by
      rw [← ofDigits_concat, ← hfront, ofDigits_eq_ofDigitChars, Nat.ofDigitChars_ten_toDigits]
    exact hcoefficient (hvalue ▸ Nat.mul_mod_right 10 _)

/-- Behind the point the shortest decimal of a double does not end in a zero. -/
theorem getLast?_split_shortest (code : Nat) : (shortest code).split.2.getLast? ≠ some '0' := by
  rcases Nat.eq_zero_or_pos code with rfl | hcode
  · rw [shortest_zero]
    decide
  · obtain ⟨coefficient, place, -, hdigits, -⟩ := shortest_of_pos hcode
    exact getLast?_split (hdigits ▸ Nat.toDigits_ne_nil) (getLast?_digits_shortest hcode)

end Digits

end Lox.Decimal
