import Lox.Decimal.Layout
import Lox.Decimal.Numeral
import Lox.Proofs.Decimal.Rounding

/-!
# Shortest decimals read back

The shortest decimal of a finite double lies between the midpoints to the neighbours of the double, so
the numeral with its digits, without an exponent, is read as the same double.
-/
namespace Lox.Decimal

-- Powers below are those of `Nat` itself, also where other powers are in scope.
attribute [local instance (high)] instPowNat

section Grids
variable {code coefficient place num den : Nat}

/-- A decimal that rounds to a double lies between the midpoints to its neighbours. -/
theorem between_of_roundsTo (h : roundsTo code coefficient place = true)
    (hvalue : num * 10 ^ unitPlaces = coefficient * 10 ^ place * den) (hden : 0 < den) :
    Between code (num * 2 ^ unitPlaces) den := by
  have htens : ∀ places : Nat, 10 ^ places = 2 ^ places * 5 ^ places := Nat.mul_pow 2 5
  have hfives : ∀ places : Nat, 0 < 5 ^ places := fun places => Nat.pow_pos (by decide)
  rw [htens] at hvalue
  unfold roundsTo tenths at h
  unfold Between
  generalize units (code - 1) = below at *
  generalize units code = value at *
  generalize units (code + 1) = above at *
  generalize hscale : 5 ^ unitPlaces = scale at *
  have hpos : 0 < scale := hscale ▸ hfives unitPlaces
  generalize 2 ^ unitPlaces = spacing at *
  have hscaled : 2 * (num * spacing) * scale = 2 * (coefficient * 10 ^ place) * den := by
    rw [Nat.mul_assoc 2, Nat.mul_assoc num, hvalue, Nat.mul_assoc 2]
  have hlow : (below + value) * den * scale = (below * scale + value * scale) * den := by ring
  have hhigh : (value + above) * den * scale = (value * scale + above * scale) * den := by ring
  split at h
  · rename_i heven
    rw [if_pos heven]
    obtain ⟨hlower, hupper⟩ : _ ≤ _ ∧ _ ≤ _ := by simpa using h
    constructor
    · refine Nat.le_of_mul_le_mul_right ?_ hpos
      rw [hlow, hscaled]
      exact Nat.mul_le_mul_right den hlower
    · refine Nat.le_of_mul_le_mul_right ?_ hpos
      rw [hhigh, hscaled]
      exact Nat.mul_le_mul_right den hupper
  · rename_i hodd
    rw [if_neg hodd]
    obtain ⟨hlower, hupper⟩ : _ < _ ∧ _ < _ := by simpa using h
    constructor
    · refine Nat.lt_of_mul_lt_mul_right (a := scale) ?_
      rw [hlow, hscaled]
      exact Nat.mul_lt_mul_of_pos_right hlower hden
    · refine Nat.lt_of_mul_lt_mul_right (a := scale) ?_
      rw [hhigh, hscaled]
      exact Nat.mul_lt_mul_of_pos_right hupper hden

/-- Rounding gives one of the two whole numbers around a quotient. -/
theorem roundHalfEven_eq_or (num den : Nat) :
    roundHalfEven num den = num / den ∨ roundHalfEven num den = num / den + 1 := by
  unfold roundHalfEven
  split
  · exact .inl rfl
  · exact .inr rfl
  · simp only
    omega

theorem roundsTo_of_onGrid (h : onGrid code place = some coefficient) :
    roundsTo code coefficient place = true := by
  unfold onGrid at h
  simp only at h
  split at h
  · cases h
  · rename_i hbelow _
    cases h
    exact hbelow
  · rename_i _ habove
    cases h
    exact habove
  · rename_i hbelow habove
    cases h
    rcases roundHalfEven_eq_or (tenths code) (10 ^ place) with heq | heq <;> rw [heq]
    · exact hbelow
    · exact habove

/-- A double rounds to itself. -/
theorem roundsTo_tenths (hcode : 0 < code) : roundsTo code (tenths code) 0 = true := by
  have hfives : ∀ places : Nat, 0 < 5 ^ places := fun places => Nat.pow_pos (by decide)
  have hmono : ∀ code, tenths code < tenths (code + 1) := fun code =>
    Nat.mul_lt_mul_of_pos_right (units_lt_units_succ code) (hfives unitPlaces)
  have hbelow := hmono (code - 1)
  have habove := hmono code
  rw [Nat.sub_add_cancel hcode] at hbelow
  unfold roundsTo
  generalize tenths (code - 1) = below at *
  generalize tenths code = value at *
  generalize tenths (code + 1) = above at *
  split
  · simp
    omega
  · simp
    omega

theorem roundsTo_firstGrid (hcode : 0 < code) (place : Nat) :
    roundsTo code (firstGrid code place).1 (firstGrid code place).2 = true := by
  induction place with
  | zero => exact roundsTo_tenths hcode
  | succ place ih =>
    unfold firstGrid
    split
    · rename_i hgrid
      exact roundsTo_of_onGrid hgrid
    · exact ih

end Grids

section Numerals

theorem ofDigits_eq_ofDigitChars (digits : List Char) :
    ofDigits digits = Nat.ofDigitChars 10 digits 0 := rfl

theorem ofDigits_zeros_append (count : Nat) (digits : List Char) :
    ofDigits (List.replicate count '0' ++ digits) = ofDigits digits := by
  induction count with
  | zero => rfl
  | succ count ih =>
    rw [List.replicate_succ, List.cons_append]
    exact ih

theorem ofDigits_append_zeros (digits : List Char) (count : Nat) :
    ofDigits (digits ++ List.replicate count '0') = ofDigits digits * 10 ^ count := by
  induction count with
  | zero => simp
  | succ count ih =>
    rw [List.replicate_succ', ← List.append_assoc, ofDigits_concat, ih, Nat.pow_succ]
    have hzero : digitValue '0' = 0 := rfl
    rw [hzero]
    ring

/-- The digits of `coefficient * 10 ^ (place - places)` before and behind the point. -/
theorem ofDigits_split {d : Digits} {coefficient place places : Nat}
    (hdigits : d.digits = Nat.toDigits 10 coefficient)
    (hpoint : d.point = (d.digits.length + place : Nat) - places) :
    ofDigits (d.split.1 ++ d.split.2) * 10 ^ places =
      coefficient * 10 ^ place * 10 ^ d.split.2.length := by
  have hvalue : ofDigits d.digits = coefficient := by
    rw [hdigits, ofDigits_eq_ofDigitChars, Nat.ofDigitChars_ten_toDigits]
  unfold Digits.split
  split
  · rename_i hneg
    have hzeros : ofDigits (['0'] ++ (List.replicate (-d.point).toNat '0' ++ d.digits)) =
        ofDigits d.digits := by
      rw [← List.append_assoc]
      exact ofDigits_zeros_append ((-d.point).toNat + 1) d.digits
    have hlength : (List.replicate (-d.point).toNat '0' ++ d.digits).length + place = places := by
      simp only [List.length_append, List.length_replicate]
      omega
    simp only
    rw [hzeros, hvalue, ← hlength, Nat.pow_add]
    ring
  · rename_i hpos
    simp only
    rcases Nat.lt_or_ge d.point.toNat d.digits.length with hless | hge
    · have hpad : d.digits.take d.point.toNat ++
          List.replicate (d.point.toNat - d.digits.length) '0' ++ d.digits.drop d.point.toNat =
            d.digits := by
        rw [Nat.sub_eq_zero_of_le (Nat.le_of_lt hless), List.replicate_zero, List.append_nil,
          List.take_append_drop]
      have hplaces : place + (d.digits.length - d.point.toNat) = places := by omega
      rw [hpad, hvalue, List.length_drop, ← hplaces, Nat.pow_add, Nat.mul_assoc]
    · have hplaces : d.point.toNat - d.digits.length + places = place := by omega
      rw [List.take_of_length_le hge, List.drop_of_length_le hge, List.append_nil,
        ofDigits_append_zeros, hvalue, ← hplaces, Nat.pow_add, List.length_nil, Nat.pow_zero,
        Nat.mul_one, Nat.mul_assoc]

/-- A decimal with digits has digits before the point, and only digits. -/
theorem digits_split {d : Digits} (hne : d.digits ≠ []) (hdigits : ∀ c ∈ d.digits, c.isDigit = true) :
    d.split.1 ≠ [] ∧ (∀ c ∈ d.split.1, c.isDigit = true) ∧ ∀ c ∈ d.split.2, c.isDigit = true := by
  have hzeros : ∀ count, ∀ c ∈ List.replicate count '0', c.isDigit = true := by
    intro count c hc
    rw [List.eq_of_mem_replicate hc]
    rfl
  unfold Digits.split
  split
  · refine ⟨List.cons_ne_nil _ _, hzeros 1, fun c hc => ?_⟩
    exact (List.mem_append.mp hc).elim (hzeros _ c) (hdigits c)
  · rename_i hpos
    refine ⟨fun hnil => ?_, fun c hc => ?_, fun c hc => hdigits c (List.mem_of_mem_drop hc)⟩
    · have htake := (List.append_eq_nil_iff.mp hnil).1
      rcases List.take_eq_nil_iff.mp htake with hzero | hempty
      · omega
      · exact hne hempty
    · exact (List.mem_append.mp hc).elim (fun h => hdigits c (List.mem_of_mem_take h)) (hzeros _ c)

/-- The shortest decimal of a positive double rounds to the double. -/
theorem shortest_of_pos {code : Nat} (hcode : 0 < code) : ∃ coefficient place : Nat,
    roundsTo code coefficient place = true ∧
      (shortest code).digits = Nat.toDigits 10 coefficient ∧
      (shortest code).point = ((shortest code).digits.length + place : Nat) - unitPlaces := by
  have hgrid := roundsTo_firstGrid hcode ((tenths code).log2 * 302 / 1000 + 1)
  unfold shortest
  rw [if_neg (Nat.ne_of_gt hcode)]
  cases hfirst : firstGrid code ((tenths code).log2 * 302 / 1000 + 1) with
  | mk coefficient place =>
    rw [hfirst] at hgrid
    exact ⟨coefficient, place, hgrid, rfl, rfl⟩

theorem shortest_zero : shortest 0 = ⟨['0'], 1⟩ := by
  unfold shortest
  rw [if_pos rfl]

/-- The shortest decimal of a finite double is read as the double. -/
theorem ofNumeral_shortest {code : Nat} (h : code < infinityCode) :
    ofNumeral (shortest code).split.1 (shortest code).split.2 = some (ofCode code h) := by
  have hnearest : ∀ {num den : Nat}, nearestCode num den = code →
      nearest? num den = some (ofCode code h) := by
    rintro num den rfl
    exact dif_pos h
  rcases Nat.eq_zero_or_pos code with rfl | hpos
  · refine hnearest ?_
    have hhalf : roundHalfEven 0 1 = 0 := rfl
    rw [shortest_zero]
    simp [nearestCode, hhalf, Digits.split, ofDigits, digitValue]
  · obtain ⟨coefficient, place, hrounds, hdigits, hpoint⟩ := shortest_of_pos hpos
    have hden : 0 < 10 ^ (shortest code).split.2.length := Nat.pow_pos (by decide)
    have hvalue := ofDigits_split hdigits hpoint
    exact hnearest (nearestCode_of_between hpos hden (between_of_roundsTo hrounds hvalue hden))

/-- The digits of a shortest decimal. -/
theorem digits_shortest (code : Nat) :
    (shortest code).digits ≠ [] ∧ ∀ c ∈ (shortest code).digits, c.isDigit = true := by
  rcases Nat.eq_zero_or_pos code with rfl | hpos
  · rw [shortest_zero]
    exact ⟨by simp, by simp [Char.isDigit]⟩
  · obtain ⟨coefficient, place, -, hdigits, -⟩ := shortest_of_pos hpos
    rw [hdigits]
    exact ⟨Nat.toDigits_ne_nil, fun c hc => Nat.isDigit_of_mem_toDigits (by decide) (by decide) hc⟩

/-- The digits of a shortest decimal before and behind the point. -/
theorem digits_split_shortest (code : Nat) : (shortest code).split.1 ≠ [] ∧
    (∀ c ∈ (shortest code).split.1, c.isDigit = true) ∧
      ∀ c ∈ (shortest code).split.2, c.isDigit = true :=
  digits_split (digits_shortest code).1 (digits_shortest code).2

end Numerals

section Texts
open Float.Model

/-- A finite double has not the exponent of infinity. -/
theorem unpackExponent_ne {code : Nat} (h : code < infinityCode) :
    @UnpackedFloat.unpackExponent .binary64 (UInt64.ofNat code).toBitVec ≠
      -BitVec.ofNat Format.binary64.exponentBits 1 := by
  intro hexp
  refine absurd (congrArg BitVec.toNat hexp) ?_
  simp only [UnpackedFloat.unpackExponent, BitVec.toNat_cast, BitVec.extractLsb_toNat,
    UInt64.toNat_toBitVec, toNat_ofNat_of_lt_infinityCode h, Nat.shiftRight_eq_div_pow]
  have hdiv : code / 2 ^ fractionBits < 2047 := Nat.div_lt_of_lt_mul (Nat.mul_comm .. ▸ h)
  rw [Nat.mod_eq_of_lt (Nat.lt_trans hdiv (by decide))]
  exact Nat.ne_of_lt hdiv

/-- A double that `ofCode` gives is finite. -/
theorem unpack_ofCode {code : Nat} (h : code < infinityCode) :
    (ofCode code h).isNaN = false ∧ (ofCode code h).isInf = false := by
  show UnpackedFloat.isNaN (UnpackedFloat.unpack .binary64 (UInt64.ofNat code).toBitVec) = false ∧
    UnpackedFloat.isInf (UnpackedFloat.unpack .binary64 (UInt64.ofNat code).toBitVec) = false
  unfold UnpackedFloat.unpack
  rw [if_neg (unpackExponent_ne h)]
  refine iteInduction (motive := fun u : UnpackedFloat => u.isNaN = false ∧ u.isInf = false)
    (fun _ => ?_) fun _ => ⟨rfl, rfl⟩
  by_cases hzero : @UnpackedFloat.unpackMantissa .binary64 (UInt64.ofNat code).toBitVec =
      BitVec.ofNat Format.binary64.mantissaBitsWithoutImplicit 0
  · rw [dif_pos hzero]
    exact ⟨rfl, rfl⟩
  · rw [dif_neg hzero]
    exact ⟨rfl, rfl⟩

/-- A finite double without a sign is written as its shortest decimal. -/
theorem text_ofCode (layout : Layout) {code : Nat} (h : code < infinityCode) :
    layout.text (ofCode code h) = String.ofList (layout.digits (shortest code)) := by
  obtain ⟨hnan, hinf⟩ := unpack_ofCode h
  simp only [Layout.text, hnan, hinf, isNegative_ofCode, codeOf_ofCode, Bool.false_eq_true, if_false,
    String.empty_append]

/-- In program text it is written without an exponent. -/
theorem source_text_ofCode {code : Nat} (h : code < infinityCode) :
    Layout.source.text (ofCode code h) = String.ofList ((shortest code).plain false) :=
  text_ofCode .source h

end Texts

end Lox.Decimal
