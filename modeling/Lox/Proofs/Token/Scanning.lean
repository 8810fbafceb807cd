import Lox.Token.Stream
import Mathlib.Data.List.TakeWhile

/-!
# Scanning a text from a place on

The scanner skips what is no token and takes the longest token, over and over. What it takes depends
on the characters behind the token only as far as they could carry it on, so a text can be scanned
piece by piece.
-/
namespace Lox.Lexer

section Runs
variable {α : Type} {p : α → Bool} {text behind : List α}

/-- A run of characters that is not carried on by what is behind the text. -/
theorem takeWhile_append_of_head? (h : ∀ d ∈ behind.head?, p d = false) :
    (text ++ behind).takeWhile p = text.takeWhile p := by
  have hnil : behind.takeWhile p = [] := by
    cases behind with
    | nil => rfl
    | cons d behind => exact List.takeWhile_cons_of_neg (by simp [h d rfl])
  rw [List.takeWhile_append, hnil, List.append_nil]
  split
  · rename_i hlength
    exact ((List.takeWhile_prefix p).eq_of_length hlength).symm
  · rfl

theorem dropWhile_append_of_head? (h : ∀ d ∈ behind.head?, p d = false) :
    (text ++ behind).dropWhile p = text.dropWhile p ++ behind := by
  have hsame : behind.dropWhile p = behind := by
    cases behind with
    | nil => rfl
    | cons d behind => exact List.dropWhile_cons_of_neg (by simp [h d rfl])
  rw [List.dropWhile_append, hsame]
  split
  · rename_i hempty
    rw [List.isEmpty_iff.mp hempty, List.nil_append]
  · rfl

/-- A run of characters that ends within the text. -/
theorem takeWhile_append_of_dropWhile {d : α} {rest : List α} (h : text.dropWhile p = d :: rest) :
    (text ++ behind).takeWhile p = text.takeWhile p := by
  rw [List.takeWhile_append, if_neg]
  intro hlength
  have hall : text.takeWhile p = text := (List.takeWhile_prefix p).eq_of_length hlength
  have hsplit := List.takeWhile_append_dropWhile (p := p) (l := text)
  rw [hall, h] at hsplit
  exact List.cons_ne_nil _ _ (List.append_right_eq_self.mp hsplit)

theorem dropWhile_append_of_dropWhile {d : α} {rest : List α} (h : text.dropWhile p = d :: rest) :
    (text ++ behind).dropWhile p = d :: (rest ++ behind) := by
  rw [List.dropWhile_append, h]
  rfl

end Runs

section Spans
variable {c : Char} {rest behind : List Char}

/-- What is behind a token that starts with `c` does not carry the token on. -/
def Apart (c : Char) (behind : List Char) : Prop :=
  ∀ d ∈ behind.head?, ((double? c).isSome → d ≠ '=') ∧
    (isWordPart c → isWordPart d = false ∧ d ≠ '.')

/-- What was found at a place, with more text behind it. -/
def Span.before (s : Span) (behind : List Char) : Span :=
  { s with rest := s.rest ++ behind }

theorem isWordPart_of_isDigit (h : isDigit c = true) : isWordPart c = true := by
  simp [isWordPart, h]

theorem isDigit_eq_false_of_isWordPart (h : isWordPart c = false) : isDigit c = false := by
  simp only [isWordPart, Bool.or_eq_false_iff] at h
  exact h.2

theorem fraction_append (hdigit : ∀ d ∈ behind.head?, isDigit d = false)
    (hpoint : ∀ d ∈ behind.head?, d ≠ '.') (text : List Char) :
    fraction (text ++ behind) = ((fraction text).1, (fraction text).2 ++ behind) := by
  have hnone : ∀ {text : List Char}, (∀ d ∈ text.head?, d ≠ '.') → fraction text = ([], text) := by
    intro text htext
    unfold fraction
    split
    · exact absurd rfl (htext '.' rfl)
    · rfl
  match text with
  | [] => exact hnone hpoint
  | d :: text =>
    by_cases hd : d = '.'
    · subst hd
      match text with
      | [] =>
        cases behind with
        | nil => rfl
        | cons e behind => simp [fraction, hdigit e rfl]
      | e :: text =>
        by_cases he : isDigit e = true
        · simp only [List.cons_append, fraction, he, if_true, takeWhile_append_of_head? hdigit,
            dropWhile_append_of_head? hdigit]
        · simp [fraction, he]
    · have hhead : ∀ text : List Char, ∀ e ∈ (d :: text).head?, e ≠ '.' := by
        rintro text e ⟨⟩
        exact hd
      rw [hnone (hhead text), List.cons_append, hnone (hhead (text ++ behind))]

theorem length_fraction_le (text : List Char) : (fraction text).2.length ≤ text.length := by
  unfold fraction
  split
  · split
    · exact Nat.le_add_right_of_le (Nat.le_succ_of_le (List.length_dropWhile_le _ _))
    · exact Nat.le_refl _
  · exact Nat.le_refl _

theorem number_append (hdigit : ∀ d ∈ behind.head?, isDigit d = false)
    (hpoint : ∀ d ∈ behind.head?, d ≠ '.') (text : List Char) :
    number (text ++ behind) = (number text).before behind := by
  simp only [number, takeWhile_append_of_head? hdigit, dropWhile_append_of_head? hdigit,
    fraction_append hdigit hpoint]
  cases Decimal.ofNumeral (text.takeWhile isDigit) (fraction (text.dropWhile isDigit)).1 <;> rfl

theorem word_append (hpart : ∀ d ∈ behind.head?, isWordPart d = false) (text : List Char) :
    word (text ++ behind) = (word text).before behind := by
  simp only [word, takeWhile_append_of_head? hpart, dropWhile_append_of_head? hpart, Span.before]

theorem string_of_dropWhile {text : List Char} {quote : Char}
    (h : text.dropWhile (· ≠ '"') = quote :: rest) :
    string text = ⟨'"' :: text.takeWhile (· ≠ '"') ++ [quote], rest,
      .ok (.string, some (.string (String.ofList (text.takeWhile (· ≠ '"')))))⟩ := by
  unfold string
  rw [h]

theorem string_append {text : List Char}
    (h : (string text).found ≠ .error .unterminatedString) :
    string (text ++ behind) = (string text).before behind := by
  cases hdrop : text.dropWhile (· ≠ '"') with
  | nil =>
    unfold string at h
    rw [hdrop] at h
    exact absurd rfl h
  | cons quote rest =>
    rw [string_of_dropWhile hdrop, string_of_dropWhile (dropWhile_append_of_dropWhile hdrop),
      takeWhile_append_of_dropWhile hdrop]
    rfl

/-- More text behind a token that it does not carry on. -/
theorem span_append (h : (span c rest).found ≠ .error .unterminatedString)
    (hbehind : Apart c behind) : span c (rest ++ behind) = (span c rest).before behind := by
  unfold span at h ⊢
  cases hdouble : double? c with
  | some pair =>
    have hequal : ∀ d ∈ behind.head?, d ≠ '=' := fun d hd => (hbehind d hd).1 (by simp [hdouble])
    cases rest with
    | nil =>
      cases behind with
      | nil => rfl
      | cons d behind =>
        have hd := hequal d rfl
        simp only [List.nil_append]
        split
        · rename_i heq
          cases heq
          exact absurd rfl hd
        · rfl
    | cons d rest =>
      by_cases hd : d = '='
      · subst hd
        rfl
      · simp only [List.cons_append]
        split
        · rename_i heq
          cases heq
          exact absurd rfl hd
        · split
          · rename_i heq
            cases heq
            exact absurd rfl hd
          · rfl
  | none =>
    simp only [hdouble] at h ⊢
    cases hsingle : single? c with
    | some kind => rfl
    | none =>
      simp only [hsingle] at h ⊢
      by_cases hquote : c = '"'
      · rw [if_pos hquote] at h
        rw [if_pos hquote, if_pos hquote, string_append h]
      · rw [if_neg hquote, if_neg hquote]
        by_cases hdigit : isDigit c = true
        · have hpart := isWordPart_of_isDigit hdigit
          rw [if_pos hdigit, if_pos hdigit, ← List.cons_append]
          exact number_append (fun d hd => isDigit_eq_false_of_isWordPart ((hbehind d hd).2 hpart).1)
            (fun d hd => ((hbehind d hd).2 hpart).2) _
        · rw [if_neg hdigit, if_neg hdigit]
          by_cases hword : isWordStart c = true
          · have hpart : isWordPart c = true := by simp [isWordPart, hword]
            rw [if_pos hword, if_pos hword, ← List.cons_append]
            exact word_append (fun d hd => ((hbehind d hd).2 hpart).1) _
          · rw [if_neg hword, if_neg hword]
            rfl

/-- Every token has a character. -/
theorem length_span_le (c : Char) (rest : List Char) : (span c rest).rest.length ≤ rest.length := by
  have hnumber : isDigit c = true → (number (c :: rest)).rest.length ≤ rest.length := by
    intro hdigit
    have hnumeral : ∀ (lexeme text : List Char) (value : Option Float),
        (numeral lexeme text value).rest = text := fun _ _ value => by cases value <;> rfl
    simp only [number, hnumeral, List.dropWhile_cons_of_pos hdigit]
    exact Nat.le_trans (length_fraction_le _) (List.length_dropWhile_le _ _)
  have hword : isWordStart c = true → (word (c :: rest)).rest.length ≤ rest.length := by
    intro hstart
    have hpart : isWordPart c = true := by simp [isWordPart, hstart]
    simp only [word, List.dropWhile_cons_of_pos hpart]
    exact List.length_dropWhile_le _ _
  have hstring : (string rest).rest.length ≤ rest.length := by
    unfold string
    split
    · exact Nat.zero_le _
    · rename_i heq
      have hle := List.length_dropWhile_le (· ≠ '"') rest
      rw [heq] at hle
      exact Nat.le_of_succ_le hle
  unfold span
  split
  · split
    · exact Nat.le_succ _
    · exact Nat.le_refl _
  · split
    · exact Nat.le_refl _
    · split
      · exact hstring
      · split
        · exact hnumber ‹_›
        · split
          · exact hword ‹_›
          · exact Nat.le_refl _

end Spans

section Skipping
variable {line last : Int} {inComment : Bool} {c : Char} {text rest behind : List Char}

/-- A character behind which there is no comment, in a comment or not. -/
theorem skip_cons (hfeed : c ≠ '\n') (hslash : c = '/' → rest.head? ≠ some '/') :
    skip line inComment (c :: rest) =
      if inComment then skip line true rest
      else if Text.isBlank c then skip line false rest
      else ⟨line, c :: rest⟩ := by
  rw [skip]
  · exact hfeed
  · rintro rest' rfl rfl
    exact hslash rfl rfl

theorem length_skip_le (line : Int) (inComment : Bool) (text : List Char) :
    (skip line inComment text).rest.length ≤ text.length := by
  fun_induction skip line inComment text with
  | case1 => exact Nat.le_refl _
  | case2 _ _ _ ih | case4 _ _ _ _ _ ih | case5 _ _ _ _ _ _ _ _ ih => exact Nat.le_succ_of_le ih
  | case3 _ _ _ ih => exact Nat.le_succ_of_le (Nat.le_succ_of_le ih)
  | case6 => exact Nat.le_refl _

/-- Where no token starts within a text, it starts behind a line feed behind the text. -/
theorem skip_append_feed (h : skip line inComment text = ⟨last, []⟩) :
    skip line inComment (text ++ '\n' :: behind) = skip (last + 1) false behind := by
  fun_induction skip line inComment text with
  | case1 line =>
    cases h
    rfl
  | case2 line inComment rest ih => exact ih h
  | case3 line inComment rest ih => exact ih h
  | case4 line c rest hfeed hslash ih =>
    rw [List.cons_append, skip_cons hfeed (by rintro rfl; cases rest <;> simp_all), if_pos rfl]
    exact ih h
  | case5 line inComment c rest hfeed hslash hcomment hblank ih =>
    rw [List.cons_append, skip_cons hfeed (by rintro rfl; cases rest <;> simp_all), if_neg hcomment,
      if_pos hblank]
    exact ih h
  | case6 line inComment c rest hfeed hslash hcomment hblank => cases h

/-- Where a token starts within a text, more text behind makes no difference. -/
theorem skip_append (h : skip line inComment text = ⟨last, c :: rest⟩)
    (hbehind : behind.head? ≠ some '/') :
    skip line inComment (text ++ behind) = ⟨last, c :: (rest ++ behind)⟩ := by
  fun_induction skip line inComment text with
  | case1 line => cases h
  | case2 line inComment rest ih => exact ih h
  | case3 line inComment rest ih => exact ih h
  | case4 line d rest hfeed hslash ih =>
    rw [List.cons_append, skip_cons hfeed (by rintro rfl; cases rest <;> simp_all), if_pos rfl]
    exact ih h
  | case5 line inComment d rest hfeed hslash hcomment hblank ih =>
    rw [List.cons_append, skip_cons hfeed (by rintro rfl; cases rest <;> simp_all), if_neg hcomment,
      if_pos hblank]
    exact ih h
  | case6 line inComment d rest hfeed hslash hcomment hblank =>
    cases h
    rw [List.cons_append, skip_cons hfeed (by rintro rfl; cases rest <;> simp_all), if_neg hcomment,
      if_neg hblank]

end Skipping

section Places
variable {line first last : Int} {c : Char} {text rest : List Char}

theorem outcomes_of_end (h : skip line false text = ⟨last, []⟩) (fuel : Nat) :
    outcomes (fuel + 1) ⟨line, text⟩ = ([], last) := by
  rw [outcomes, h]

theorem outcomes_of_token (h : skip line false text = ⟨first, c :: rest⟩) (fuel : Nat) :
    outcomes (fuel + 1) ⟨line, text⟩ =
      ((span c rest).outcome (first + (span c rest).lexeme.count '\n') ::
          (outcomes fuel ⟨first + (span c rest).lexeme.count '\n', (span c rest).rest⟩).1,
        (outcomes fuel ⟨first + (span c rest).lexeme.count '\n', (span c rest).rest⟩).2) := by
  rw [outcomes, h]

/-- The tokens and errors of the text from a place on, and the line on which the text ends. -/
def scan (place : Place) : List (Except LexicalError Token) × Int :=
  outcomes (place.rest.length + 1) place

/-- A token leaves less of the text. -/
theorem length_span_lt (h : skip line false text = ⟨first, c :: rest⟩) :
    (span c rest).rest.length < text.length := by
  have hskip := length_skip_le line false text
  have hspan := length_span_le c rest
  rw [h] at hskip
  exact Nat.lt_of_le_of_lt hspan hskip

/-- With enough fuel there is all of the text. -/
theorem outcomes_eq_scan {fuel : Nat} (h : text.length < fuel) :
    outcomes fuel ⟨line, text⟩ = scan ⟨line, text⟩ := by
  have hmain : ∀ fuel fuel' (line : Int) (text : List Char), text.length < fuel →
      text.length < fuel' → outcomes fuel ⟨line, text⟩ = outcomes fuel' ⟨line, text⟩ := by
    intro fuel
    induction fuel with
    | zero => exact fun _ _ _ h => absurd h (Nat.not_lt_zero _)
    | succ fuel ih =>
      rintro (_ | fuel') line text h h'
      · exact absurd h' (Nat.not_lt_zero _)
      · cases hskip : skip line false text with
        | mk first rest =>
          cases rest with
          | nil => rw [outcomes_of_end hskip, outcomes_of_end hskip]
          | cons c rest =>
            have hless := length_span_lt hskip
            rw [outcomes_of_token hskip, outcomes_of_token hskip,
              ih fuel' _ _ (Nat.lt_of_lt_of_le hless (Nat.le_of_lt_succ h))
                (Nat.lt_of_lt_of_le hless (Nat.le_of_lt_succ h'))]
  exact hmain _ _ line text h (Nat.lt_succ_self _)

theorem scan_of_end (h : skip line false text = ⟨last, []⟩) : scan ⟨line, text⟩ = ([], last) :=
  outcomes_of_end h _

theorem scan_of_token (h : skip line false text = ⟨first, c :: rest⟩) :
    scan ⟨line, text⟩ =
      ((span c rest).outcome (first + (span c rest).lexeme.count '\n') ::
          (scan ⟨first + (span c rest).lexeme.count '\n', (span c rest).rest⟩).1,
        (scan ⟨first + (span c rest).lexeme.count '\n', (span c rest).rest⟩).2) := by
  have hscan : scan ⟨line, text⟩ = outcomes (text.length + 1) ⟨line, text⟩ := rfl
  rw [hscan, outcomes_of_token h, outcomes_eq_scan (length_span_lt h)]

/-- What is skipped at the start does not count. -/
theorem scan_congr {other : Int} {text' : List Char}
    (h : skip line false text = skip other false text') :
    scan ⟨line, text⟩ = scan ⟨other, text'⟩ := by
  cases hskip : skip other false text' with
  | mk first rest =>
    rw [hskip] at h
    cases rest with
    | nil => rw [scan_of_end h, scan_of_end hskip]
    | cons c rest => rw [scan_of_token h, scan_of_token hskip]

end Places

end Lox.Lexer
