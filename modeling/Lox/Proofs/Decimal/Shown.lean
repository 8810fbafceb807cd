import Lox.Proofs.Decimal.ReadingBack
import Mathlib.Data.List.TakeWhile

/-!
# Shown numbers read back

A program prints a number with its shortest digits, and with an exponent in the place of many zeros.
The exponent tells where the point is, so that the digits before and behind the point can be had from
the text; and they are read as the number.
-/
namespace Lox.Decimal

section Reading

/-- The exponent behind an `e`: digits behind their sign. -/
def exponentOf : List Char → Int
  | '-' :: size => -(ofDigits size)
  | _ :: size => ofDigits size
  | [] => 0

/-- The digits before and behind the point of the decimal that a text shows, with an exponent or
without one. -/
def decimalOf (text : List Char) : List Char × List Char :=
  match text.dropWhile (· ≠ 'e') with
  | [] => (text.takeWhile (· ≠ '.'), (text.dropWhile (· ≠ '.')).tail)
  | _ :: exponent =>
    (Digits.mk ((text.takeWhile (· ≠ 'e')).filter (· ≠ '.')) (exponentOf exponent + 1)).split

/-- The number that a text shows. -/
def read? (text : List Char) : Option Float :=
  ofNumeral (decimalOf text).1 (decimalOf text).2

end Reading

section Digits
variable {d : Digits} {text : List Char} {c : Char}

theorem ne_of_isDigit {other : Char} (hother : other.isDigit = false) (h : c.isDigit = true) :
    c ≠ other := by
  rintro rfl
  exact absurd (h.symm.trans hother) nofun

/-- What stands before the first character of a kind is found again. -/
theorem split_at (h : c ∉ text) (behind : List Char) :
    (text ++ c :: behind).takeWhile (· ≠ c) = text ∧
      (text ++ c :: behind).dropWhile (· ≠ c) = c :: behind := by
  have hall : ∀ other ∈ text, decide (other ≠ c) = true := fun other hmem =>
    decide_eq_true fun heq => h (heq ▸ hmem)
  constructor
  · rw [List.takeWhile_append_of_pos hall, List.takeWhile_cons_of_neg (by simp), List.append_nil]
  · rw [List.dropWhile_append_of_pos hall, List.dropWhile_cons_of_neg (by simp)]

theorem split_at_end (h : c ∉ text) :
    text.takeWhile (· ≠ c) = text ∧ text.dropWhile (· ≠ c) = [] := by
  have hall : ∀ other ∈ text, decide (other ≠ c) = true := fun other hmem =>
    decide_eq_true fun heq => h (heq ▸ hmem)
  exact ⟨List.takeWhile_eq_self_iff.mpr hall, List.dropWhile_eq_nil_iff.mpr hall⟩

/-- A decimal without an exponent. -/
theorem decimalOf_plain (hwhole : ∀ c ∈ d.split.1, c.isDigit = true)
    (hfraction : ∀ c ∈ d.split.2, c.isDigit = true) : decimalOf (d.plain false) = d.split := by
  have without : ∀ {other : Char} {digits : List Char}, other.isDigit = false →
      (∀ c ∈ digits, c.isDigit = true) → other ∉ digits := fun hother hdigits hmem =>
    ne_of_isDigit hother (hdigits _ hmem) rfl
  unfold Digits.plain
  cases hsplit : d.split with
  | mk whole fraction =>
    rw [hsplit] at hwhole hfraction
    cases fraction with
    | nil =>
      have hpoint : '.' ∉ whole := without rfl hwhole
      have hexponent : 'e' ∉ whole := without rfl hwhole
      obtain ⟨htake, hdrop⟩ := split_at_end hpoint
      obtain ⟨-, hnone⟩ := split_at_end hexponent
      simp only [decimalOf, hnone, htake, hdrop, List.tail_nil, Bool.false_eq_true, if_false]
    | cons first rest =>
      have hpoint : '.' ∉ whole := without rfl hwhole
      have hexponent : 'e' ∉ whole ++ '.' :: first :: rest := by
        simp only [List.mem_append, List.mem_cons (b := '.'), not_or]
        exact ⟨without rfl hwhole, by decide, without rfl hfraction⟩
      obtain ⟨htake, hdrop⟩ := split_at hpoint (first :: rest)
      obtain ⟨-, hnone⟩ := split_at_end hexponent
      simp only [decimalOf, hnone, htake, hdrop, List.tail_cons]

/-- The exponent is the one that was written. -/
theorem exponentOf_written (exponent : Int) (padding : Nat) :
    exponentOf ((if exponent < 0 then '-' else '+') ::
      (List.replicate padding '0' ++ Nat.toDigits 10 exponent.natAbs)) = exponent := by
  have hsize : ofDigits (List.replicate padding '0' ++ Nat.toDigits 10 exponent.natAbs) =
      exponent.natAbs := by
    rw [ofDigits_zeros_append, ofDigits_eq_ofDigitChars, Nat.ofDigitChars_ten_toDigits]
  split
  · rw [exponentOf, hsize]
    omega
  · rw [exponentOf, hsize]
    · omega
    · decide

/-- In front of an exponent stand the digits with a point among them. -/
theorem scientific_split (hdigits : ∀ c ∈ d.digits, c.isDigit = true) :
    ∃ significand : List Char, ∃ padding : Nat,
      d.scientific = significand ++ 'e' :: ((if d.point - 1 < 0 then '-' else '+') ::
        (List.replicate padding '0' ++ Nat.toDigits 10 (d.point - 1).natAbs)) ∧
      significand.filter (· ≠ '.') = d.digits ∧ significand.head? = d.digits.head? ∧
      ∀ c ∈ significand, c.isDigit = true ∨ c = '.' := by
  have hkept : ∀ digits : List Char, (∀ c ∈ digits, c.isDigit = true) →
      digits.filter (· ≠ '.') = digits := fun digits h =>
    List.filter_eq_self.mpr fun c hc => decide_eq_true (ne_of_isDigit rfl (h c hc))
  unfold Digits.scientific
  split
  · rename_i first second rest heq
    rw [heq] at hdigits ⊢
    obtain ⟨hfirst, hmore⟩ := List.forall_mem_cons.mp hdigits
    refine ⟨first :: '.' :: second :: rest, _, rfl, ?_, rfl, ?_⟩
    · have hne : first ≠ '.' := ne_of_isDigit rfl hfirst
      rw [List.filter_cons_of_pos (by simpa using hne), List.filter_cons_of_neg (by simp),
        hkept _ hmore]
    · exact List.forall_mem_cons.mpr ⟨.inl hfirst, List.forall_mem_cons.mpr
        ⟨.inr rfl, fun c hc => .inl (hmore c hc)⟩⟩
  · exact ⟨d.digits, _, rfl, hkept _ hdigits, rfl, fun c hc => .inl (hdigits c hc)⟩

/-- A decimal with an exponent. -/
theorem decimalOf_scientific (hdigits : ∀ c ∈ d.digits, c.isDigit = true) :
    decimalOf d.scientific = d.split := by
  obtain ⟨significand, padding, htext, hfilter, -, hchars⟩ := scientific_split hdigits
  have hmem : 'e' ∉ significand := fun h => (hchars _ h).elim nofun (by decide)
  rw [htext]
  obtain ⟨htake, hdrop⟩ := split_at hmem ((if d.point - 1 < 0 then '-' else '+') ::
    (List.replicate padding '0' ++ Nat.toDigits 10 (d.point - 1).natAbs))
  simp only [decimalOf, hdrop, htake, hfilter, exponentOf_written, Int.sub_add_cancel]

end Digits

section Numbers
variable {code : Nat}

/-- What a program prints for a finite double without a sign is read as the double. -/
theorem read?_shown (h : code < infinityCode) :
    read? (Layout.shown.text (ofCode code h)).toList = some (ofCode code h) := by
  obtain ⟨-, hdigits⟩ := digits_shortest code
  obtain ⟨-, hwhole, hfraction⟩ := digits_split_shortest code
  have hdecimal : decimalOf (Layout.shown.digits (shortest code)) = (shortest code).split := by
    unfold Layout.digits Layout.shown
    simp only
    split
    · exact decimalOf_plain hwhole hfraction
    · exact decimalOf_scientific hdigits
  rw [text_ofCode, String.toList_ofList, read?, hdecimal, ofNumeral_shortest h]

/-- A text that begins with a digit, and has no other characters than digits and those of signs,
points and exponents. -/
structure NumberText (text : List Char) : Prop where
  starts : ∃ c more, text = c :: more ∧ c.isDigit = true
  chars : ∀ c ∈ text, c.isDigit = true ∨ c ∈ ['.', 'e', '-', '+']

theorem numberText_append {digits behind : List Char} (hne : digits ≠ [])
    (hdigits : ∀ c ∈ digits, c.isDigit = true)
    (hbehind : ∀ c ∈ behind, c.isDigit = true ∨ c ∈ ['.', 'e', '-', '+']) :
    NumberText (digits ++ behind) := by
  obtain ⟨c, more, rfl⟩ := List.exists_cons_of_ne_nil hne
  refine ⟨⟨c, more ++ behind, rfl, hdigits c List.mem_cons_self⟩, fun d hd => ?_⟩
  exact (List.mem_append.mp hd).elim (fun h => .inl (hdigits d h)) (hbehind d)

theorem numberText_plain (code : Nat) : NumberText ((shortest code).plain false) := by
  obtain ⟨hne, hwhole, hfraction⟩ := digits_split_shortest code
  unfold Digits.plain
  cases hsplit : (shortest code).split with
  | mk whole fraction =>
    rw [hsplit] at hne hwhole hfraction
    cases fraction with
    | nil =>
      have hnumber : NumberText (whole ++ []) := numberText_append hne hwhole nofun
      rwa [List.append_nil] at hnumber
    | cons first rest =>
      exact numberText_append hne hwhole
        (List.forall_mem_cons.mpr ⟨.inr (by decide), fun c hc => .inl (hfraction c hc)⟩)

theorem numberText_scientific (code : Nat) : NumberText (shortest code).scientific := by
  obtain ⟨hne, hdigits⟩ := digits_shortest code
  obtain ⟨significand, padding, htext, -, hhead, hchars⟩ := scientific_split hdigits
  obtain ⟨first, more, hfirst⟩ := List.exists_cons_of_ne_nil hne
  rw [hfirst, List.head?_cons] at hhead
  obtain ⟨more, rfl⟩ := List.head?_eq_some_iff.mp hhead
  have hsign : (if (shortest code).point - 1 < 0 then '-' else '+') ∈ ['.', 'e', '-', '+'] := by
    split <;> decide
  rw [htext, List.cons_append, ← List.singleton_append]
  refine numberText_append (List.cons_ne_nil first []) ?_ fun c hc => ?_
  · exact List.forall_mem_singleton.mpr (hdigits first (hfirst ▸ List.mem_cons_self))
  · rcases List.mem_append.mp hc with hc | hc
    · exact (hchars c (List.mem_cons_of_mem _ hc)).imp_right fun h => List.mem_cons.mpr (.inl h)
    · simp only [List.mem_cons (b := 'e'), List.mem_cons (a := c), List.mem_append] at hc
      rcases hc with rfl | rfl | hc | hc
      · exact .inr (by decide)
      · exact .inr hsign
      · exact .inl (by rw [List.eq_of_mem_replicate hc]; rfl)
      · exact .inl (Nat.isDigit_of_mem_toDigits (by decide) (by decide) hc)

theorem numberText_shown (h : code < infinityCode) :
    NumberText (Layout.shown.text (ofCode code h)).toList := by
  rw [text_ofCode, String.toList_ofList]
  unfold Layout.digits Layout.shown
  simp only
  split
  · exact numberText_plain code
  · exact numberText_scientific code

end Numbers

end Lox.Decimal
