import Lox.Proofs.Decimal.Nearest
import Lox.Proofs.Token.Scanning
import Mathlib.Tactic.IntervalCases

/-!
# The lexical grammar

Which texts are tokens, and what each of them stands for. Scanning the text of a token by itself gives
the token; and what the scanner takes at a place is a token of the grammar, behind which no longer
one could be taken.
-/
namespace Lox.Lexer

section Grammar

/-- The tokens that are spelled in one way only and are no words. -/
def symbols : List (List Char × Kind) :=
  [(['('], .leftParen), ([')'], .rightParen), (['\x7b'], .leftBrace), (['\x7d'], .rightBrace),
    ([','], .comma), (['.'], .dot), (['-'], .minus), (['+'], .plus), ([';'], .semicolon),
    (['*'], .star), (['/'], .slash), (['!'], .bang), (['!', '='], .bangEqual), (['='], .equal),
    (['=', '='], .equalEqual), (['<'], .less), (['<', '='], .lessEqual), (['>'], .greater),
    (['>', '='], .greaterEqual)]

/-- The text of a numeral by its digits before and behind the point. -/
def numeralText (whole digits : List Char) : List Char :=
  if digits.isEmpty then whole else whole ++ '.' :: digits

/-- The texts that are tokens, and the kind and the literal of each. A numeral that is too great for a
number is one as well, but it gives an error. -/
inductive Lexeme : List Char → Except LexicalError.Cause (Kind × Option Atom) → Prop where
  | symbol {text : List Char} {kind : Kind} (h : (text, kind) ∈ symbols) :
    Lexeme text (.ok (kind, none))
  | keyword {word : String} {kind : Kind} (h : (word, kind) ∈ keywords) :
    Lexeme word.toList (.ok (kind, none))
  | identifier {c : Char} {more : List Char} (hstart : isWordStart c = true)
    (hmore : ∀ d ∈ more, isWordPart d = true)
    (hfree : ∀ kind, (String.ofList (c :: more), kind) ∉ keywords) :
    Lexeme (c :: more) (.ok (.identifier, none))
  | string {inside : List Char} (h : '"' ∉ inside) :
    Lexeme ('"' :: (inside ++ ['"'])) (.ok (.string, some (.string (String.ofList inside))))
  | number {whole digits : List Char} (hne : whole ≠ []) (hwhole : ∀ d ∈ whole, isDigit d = true)
    (hdigits : ∀ d ∈ digits, isDigit d = true) {code : Nat}
    (hnearest : Decimal.Nearest (Decimal.numeralValue whole digits) code)
    (h : code < Decimal.infinityCode) : Lexeme (numeralText whole digits)
      (.ok (.number, some (.number (Decimal.ofCode code h))))
  | tooGreat {whole digits : List Char} (hne : whole ≠ [])
    (hwhole : ∀ d ∈ whole, isDigit d = true) (hdigits : ∀ d ∈ digits, isDigit d = true) {code : Nat}
    (hnearest : Decimal.Nearest (Decimal.numeralValue whole digits) code)
    (h : Decimal.infinityCode ≤ code) : Lexeme (numeralText whole digits) (.error .invalidNumber)

/-- A text that is a token. -/
def IsLexeme (text : List Char) : Prop :=
  ∃ found, Lexeme text found

end Grammar

section Symbols
variable {c : Char} {rest : List Char} {kind : Kind}

/-- How a symbol is taken apart: a single character, or an operator that an equals sign may follow. -/
def Spelled (entry : List Char × Kind) : Prop :=
  match entry.1 with
  | [c] => double? c = none ∧ single? c = some entry.2 ∨ (double? c).map Prod.fst = some entry.2
  | [c, d] => d = '=' ∧ (double? c).map Prod.snd = some entry.2
  | _ => False

instance (entry : List Char × Kind) : Decidable (Spelled entry) := by
  unfold Spelled
  split <;> infer_instance

theorem spelled_of_mem_symbols : ∀ entry ∈ symbols, Spelled entry := by
  decide

theorem mem_symbols_of_single (h : single? c = some kind) : ([c], kind) ∈ symbols := by
  unfold single? at h
  split at h <;> cases h <;> decide

theorem mem_symbols_of_double {alone withEqual : Kind} (h : double? c = some (alone, withEqual)) :
    ([c], alone) ∈ symbols ∧ ([c, '='], withEqual) ∈ symbols := by
  unfold double? at h
  split at h <;> cases h <;> decide

/-- A symbol by itself is read as the symbol, and more text behind it at least as far. -/
theorem span_symbol {text : List Char} (h : (text, kind) ∈ symbols) :
    ∃ c front, text = c :: front ∧ span c front = ⟨text, [], .ok (kind, none)⟩ := by
  have hspelled := spelled_of_mem_symbols _ h
  match text, hspelled with
  | [c], .inl ⟨hdouble, hsingle⟩ =>
    refine ⟨c, [], rfl, ?_⟩
    simp only [span, hdouble, hsingle]
  | [c], .inr halone =>
    refine ⟨c, [], rfl, ?_⟩
    obtain ⟨⟨alone, withEqual⟩, hdouble, rfl⟩ := Option.map_eq_some_iff.mp halone
    simp only [span, hdouble]
  | [c, d], ⟨hequal, hwith⟩ =>
    refine ⟨c, [d], rfl, ?_⟩
    obtain ⟨⟨alone, withEqual⟩, hdouble, rfl⟩ := Option.map_eq_some_iff.mp hwith
    cases hequal
    simp only [span, hdouble]

end Symbols

section Words
variable {c : Char} {text more : List Char}

/-- The first characters of words, numerals and strings start no symbol. -/
theorem tables_eq_none (h : isWordPart c = true ∨ c = '"') : double? c = none ∧ single? c = none := by
  constructor
  · cases hdouble : double? c with
    | none => rfl
    | some pair =>
      refine absurd h ?_
      unfold double? at hdouble
      split at hdouble <;> cases hdouble <;> decide
  · cases hsingle : single? c with
    | none => rfl
    | some kind =>
      refine absurd h ?_
      unfold single? at hsingle
      split at hsingle <;> cases hsingle <;> decide

theorem isDigit_eq_false_of_isWordStart (h : isWordStart c = true) : isDigit c = false := by
  by_contra hdigit
  rw [Bool.not_eq_false] at hdigit
  obtain ⟨hlow, hhigh⟩ : 48 ≤ c.toNat ∧ c.toNat ≤ 57 := by simpa [isDigit] using hdigit
  have hc : c = Char.ofNat c.toNat := (Char.ofNat_toNat c).symm
  generalize c.toNat = code at *
  subst hc
  revert h
  interval_cases code <;> decide

theorem span_word (h : isWordStart c = true) (rest : List Char) : span c rest = word (c :: rest) := by
  have hpart : isWordPart c = true := by simp [isWordPart, h]
  obtain ⟨hdouble, hsingle⟩ := tables_eq_none (.inl hpart)
  have hquote : c ≠ '"' := by
    rintro rfl
    exact absurd h (by decide)
  simp only [span, hdouble, hsingle, if_neg hquote, isDigit_eq_false_of_isWordStart h, h,
    Bool.false_eq_true, if_false, if_true]

theorem word_closed (h : ∀ d ∈ text, isWordPart d = true) :
    word text = ⟨text, [], .ok (wordKind (String.ofList text), none)⟩ := by
  simp only [word, List.takeWhile_eq_self_iff.mpr h, List.dropWhile_eq_nil_iff.mpr h]

/-- A keyword is a word. -/
theorem word_of_mem_keywords : ∀ entry ∈ keywords, wordKind entry.1 = entry.2 ∧
    (entry.1.toList.head?.any isWordStart = true) ∧ (entry.1.toList.all isWordPart = true) := by
  decide

theorem wordKind_of_not_mem {word : String} (h : ∀ kind, (word, kind) ∉ keywords) :
    wordKind word = .identifier := by
  unfold wordKind
  cases hlookup : keywords.lookup word with
  | none => rfl
  | some kind =>
    obtain ⟨before, behind, heq, -⟩ := List.lookup_eq_some_iff.mp hlookup
    exact absurd (heq ▸ List.mem_append_right _ List.mem_cons_self) (h kind)

/-- What a word is. -/
theorem lexeme_word (hstart : isWordStart c = true) (hmore : ∀ d ∈ more, isWordPart d = true) :
    Lexeme (c :: more) (.ok (wordKind (String.ofList (c :: more)), none)) := by
  by_cases hkeyword : ∃ kind, (String.ofList (c :: more), kind) ∈ keywords
  · obtain ⟨kind, hmem⟩ := hkeyword
    rw [(word_of_mem_keywords _ hmem).1]
    simpa using Lexeme.keyword hmem
  · have hfree : ∀ kind, (String.ofList (c :: more), kind) ∉ keywords := fun kind hmem =>
      hkeyword ⟨kind, hmem⟩
    rw [wordKind_of_not_mem hfree]
    exact .identifier hstart hmore hfree

end Words

section Strings
variable {inside rest behind : List Char}

theorem span_quote (rest : List Char) : span '"' rest = string rest := rfl

theorem string_closed (h : '"' ∉ inside) : string (inside ++ '"' :: behind) =
    ⟨'"' :: (inside ++ ['"']), behind, .ok (.string, some (.string (String.ofList inside)))⟩ := by
  have hall : ∀ d ∈ inside, (d ≠ '"' : Bool) = true := by
    intro d hd
    simpa using fun heq : d = '"' => h (heq ▸ hd)
  have htake : (inside ++ '"' :: behind).takeWhile (· ≠ '"') = inside := by
    rw [List.takeWhile_append_of_pos hall]
    simp
  have hdrop : (inside ++ '"' :: behind).dropWhile (· ≠ '"') = '"' :: behind := by
    rw [List.dropWhile_append_of_pos hall]
    simp
  rw [string_of_dropWhile hdrop, htake]
  rfl

theorem string_of_not_mem (h : '"' ∉ rest) :
    string rest = ⟨'"' :: rest, [], .error .unterminatedString⟩ := by
  have hall : ∀ d ∈ rest, (d ≠ '"' : Bool) = true := by
    intro d hd
    simpa using fun heq : d = '"' => h (heq ▸ hd)
  simp only [string, List.dropWhile_eq_nil_iff.mpr hall, List.takeWhile_eq_self_iff.mpr hall]

end Strings

section Numerals
variable {c : Char} {whole digits text behind : List Char}

theorem span_digit (h : isDigit c = true) (rest : List Char) : span c rest = number (c :: rest) := by
  obtain ⟨hdouble, hsingle⟩ := tables_eq_none (.inl (isWordPart_of_isDigit h))
  have hquote : c ≠ '"' := by
    rintro rfl
    exact absurd h (by decide)
  simp only [span, hdouble, hsingle, if_neg hquote, h, if_true]

/-- A numeral with all the digits before the point, and no digit behind them. -/
theorem number_of_digits (hwhole : ∀ d ∈ whole, isDigit d = true)
    (hbehind : ∀ d ∈ behind.head?, isDigit d = false) : number (whole ++ behind) =
      numeral (numeralText whole (fraction behind).1) (fraction behind).2
        (Decimal.ofNumeral whole (fraction behind).1) := by
  have htake : (whole ++ behind).takeWhile isDigit = whole := by
    rw [takeWhile_append_of_head? hbehind, List.takeWhile_eq_self_iff.mpr hwhole]
  have hdrop : (whole ++ behind).dropWhile isDigit = behind := by
    rw [dropWhile_append_of_head? hbehind, List.dropWhile_eq_nil_iff.mpr hwhole, List.nil_append]
  simp only [number, numeralText, htake, hdrop]

theorem fraction_point {d : Char} (hd : isDigit d = true) (rest : List Char) :
    fraction ('.' :: d :: rest) = (d :: rest.takeWhile isDigit, rest.dropWhile isDigit) := by
  simp only [fraction, hd, if_true]

/-- What belongs to a numeral behind its first digits are digits, and a point before them. -/
theorem fraction_lexeme (text : List Char) : (∀ d ∈ (fraction text).1, isDigit d = true) ∧
    ∀ whole, whole ++ text = numeralText whole (fraction text).1 ++ (fraction text).2 := by
  have hnone : (∀ d ∈ ([] : List Char), isDigit d = true) ∧
      ∀ whole, whole ++ text = numeralText whole [] ++ text := ⟨nofun, fun _ => rfl⟩
  unfold fraction
  split
  · rename_i d rest
    split
    · rename_i hdigit
      refine ⟨fun e he => ?_, fun whole => ?_⟩
      · rcases List.mem_cons.mp he with rfl | he
        · exact hdigit
        · exact List.mem_takeWhile_imp he
      · simp [numeralText, List.takeWhile_append_dropWhile]
    · exact hnone
  · exact hnone

/-- What a numeral is. -/
theorem exists_numeral (hne : whole ≠ []) (hwhole : ∀ d ∈ whole, isDigit d = true)
    (hdigits : ∀ d ∈ digits, isDigit d = true) (lexeme rest : List Char) :
    ∃ found, numeral lexeme rest (Decimal.ofNumeral whole digits) = ⟨lexeme, rest, found⟩ ∧
      Lexeme (numeralText whole digits) found := by
  cases hvalue : Decimal.ofNumeral whole digits with
  | some x =>
    obtain ⟨code, hfinite, hnearest, rfl⟩ := Decimal.ofNumeral_eq_some_iff.mp hvalue
    exact ⟨_, rfl, .number hne hwhole hdigits hnearest hfinite⟩
  | none =>
    obtain ⟨code, hinfinite, hnearest⟩ := Decimal.ofNumeral_eq_none_iff.mp hvalue
    exact ⟨_, rfl, .tooGreat hne hwhole hdigits hnearest hinfinite⟩

/-- A numeral by itself is read as a whole. -/
theorem number_closed (hwhole : ∀ d ∈ whole, isDigit d = true)
    (hdigits : ∀ d ∈ digits, isDigit d = true) : number (numeralText whole digits) =
      numeral (numeralText whole digits) [] (Decimal.ofNumeral whole digits) := by
  cases digits with
  | nil =>
    have hnumber : number (whole ++ []) = numeral whole [] (Decimal.ofNumeral whole []) :=
      number_of_digits hwhole nofun
    rwa [List.append_nil] at hnumber
  | cons d digits =>
    have hrest : ∀ e ∈ digits, isDigit e = true := fun e he => hdigits e (List.mem_cons_of_mem _ he)
    have hpoint : ∀ e ∈ ('.' :: d :: digits).head?, isDigit e = false := by
      rintro e ⟨⟩
      rfl
    have hnumber := number_of_digits hwhole hpoint
    rwa [fraction_point (hdigits d List.mem_cons_self), List.takeWhile_eq_self_iff.mpr hrest,
      List.dropWhile_eq_nil_iff.mpr hrest] at hnumber

theorem isDigit_head (hne : whole ≠ []) (hwhole : ∀ d ∈ whole, isDigit d = true)
    {front : List Char} (h : numeralText whole digits = c :: front) : isDigit c = true := by
  obtain ⟨d, whole, rfl⟩ := List.exists_cons_of_ne_nil hne
  have hhead : d = c := by
    unfold numeralText at h
    split at h <;> exact (List.cons.inj h).1
  exact hhead ▸ hwhole d List.mem_cons_self

end Numerals

section Prefixes
variable {c : Char} {front rest : List Char}

theorem prefix_takeWhile {α : Type} {p : α → Bool} {front text : List α} (h : front <+: text)
    (hall : ∀ d ∈ front, p d = true) : front <+: text.takeWhile p := by
  obtain ⟨more, rfl⟩ := h
  rw [List.takeWhile_append_of_pos hall]
  exact List.prefix_append _ _

theorem prefix_numeralText (whole digits : List Char) : whole <+: numeralText whole digits := by
  unfold numeralText
  split
  · exact List.prefix_rfl
  · exact List.prefix_append _ _

/-- No numeral that starts a text is longer than the one that is taken. -/
theorem prefix_number {whole digits text : List Char} (hwhole : ∀ d ∈ whole, isDigit d = true)
    (hdigits : ∀ d ∈ digits, isDigit d = true) (h : numeralText whole digits <+: text) :
    numeralText whole digits <+: (number text).lexeme := by
  have hlexeme : ∀ lexeme rest x, (numeral lexeme rest x).lexeme = lexeme := by
    rintro lexeme rest (_ | _) <;> rfl
  cases digits with
  | nil =>
    have hnumber : (number text).lexeme = numeralText (text.takeWhile isDigit)
        (fraction (text.dropWhile isDigit)).1 := hlexeme _ _ _
    rw [hnumber]
    exact (prefix_takeWhile h hwhole).trans (prefix_numeralText _ _)
  | cons d digits =>
    have hrest : ∀ e ∈ digits, isDigit e = true := fun e he => hdigits e (List.mem_cons_of_mem _ he)
    obtain ⟨more, rfl⟩ := h
    have hpoint : ∀ e ∈ ('.' :: d :: (digits ++ more)).head?, isDigit e = false := by
      rintro e ⟨⟩
      rfl
    have htext : numeralText whole (d :: digits) ++ more = whole ++ '.' :: d :: (digits ++ more) := by
      simp [numeralText]
    rw [htext, number_of_digits hwhole hpoint, hlexeme,
      fraction_point (hdigits d List.mem_cons_self), List.takeWhile_append_of_pos hrest]
    refine ⟨more.takeWhile isDigit, ?_⟩
    simp [numeralText]

end Prefixes

section Spans
variable {c : Char} {front rest : List Char}
  {found : Except LexicalError.Cause (Kind × Option Atom)}

/-- What starts no token. -/
structure Stray (c : Char) : Prop where
  double : double? c = none
  single : single? c = none
  quote : c ≠ '"'
  digit : isDigit c = false
  word : isWordStart c = false

/-- The ways in which a token can start, and what is taken there. -/
theorem span_cases (c : Char) (rest : List Char) :
    (∃ alone withEqual, double? c = some (alone, withEqual) ∧
      ((∃ behind, rest = '=' :: behind ∧ span c rest = ⟨[c, '='], behind, .ok (withEqual, none)⟩) ∨
        rest.head? ≠ some '=' ∧ span c rest = ⟨[c], rest, .ok (alone, none)⟩)) ∨
    (∃ kind, single? c = some kind ∧ span c rest = ⟨[c], rest, .ok (kind, none)⟩) ∨
    (c = '"' ∧ span c rest = string rest) ∨
    (isDigit c = true ∧ span c rest = number (c :: rest)) ∨
    (isWordStart c = true ∧ span c rest = word (c :: rest)) ∨
    (Stray c ∧ span c rest = ⟨[c], rest, .error .unexpectedCharacter⟩) := by
  cases hdouble : double? c with
  | some pair =>
    refine .inl ⟨pair.1, pair.2, rfl, ?_⟩
    match rest with
    | [] => exact .inr ⟨by simp, by simp only [span, hdouble]⟩
    | d :: behind =>
      by_cases hd : d = '='
      · subst hd
        exact .inl ⟨behind, rfl, by simp only [span, hdouble]⟩
      · refine .inr ⟨by simpa using hd, ?_⟩
        unfold span
        simp only [hdouble]
        split
        · rename_i heq
          exact absurd (List.cons.inj heq).1 hd
        · rfl
  | none =>
    refine .inr ?_
    cases hsingle : single? c with
    | some kind => exact .inl ⟨kind, rfl, by simp only [span, hdouble, hsingle]⟩
    | none =>
      refine .inr ?_
      by_cases hquote : c = '"'
      · subst hquote
        exact .inl ⟨rfl, rfl⟩
      · refine .inr ?_
        by_cases hdigit : isDigit c = true
        · exact .inl ⟨hdigit, span_digit hdigit rest⟩
        · refine .inr ?_
          by_cases hword : isWordStart c = true
          · exact .inl ⟨hword, span_word hword rest⟩
          · rw [Bool.not_eq_true] at hdigit hword
            refine .inr ⟨⟨hdouble, hsingle, hquote, hdigit, hword⟩, ?_⟩
            simp only [span, hdouble, hsingle, if_neg hquote, hdigit, hword, Bool.false_eq_true,
              if_false]

/-- A token by itself is read as the token. -/
theorem Lexeme.span_eq (h : Lexeme (c :: front) found) : span c front = ⟨c :: front, [], found⟩ := by
  generalize htext : c :: front = text at h
  cases h with
  | symbol hmem =>
    obtain ⟨d, more, heq, hspan⟩ := span_symbol hmem
    cases htext.trans heq
    rw [hspan, heq]
  | @keyword word kind hmem =>
    obtain ⟨hkind, hstart, hparts⟩ := word_of_mem_keywords _ hmem
    rw [← htext] at hstart hparts ⊢
    have hword : String.ofList (c :: front) = word := by rw [htext, String.ofList_toList]
    rw [span_word (by simpa using hstart), word_closed (by simpa using hparts), hword, hkind]
  | identifier hstart hmore hfree =>
    cases htext
    have hparts : ∀ d ∈ c :: front, isWordPart d = true := by
      intro d hd
      rcases List.mem_cons.mp hd with rfl | hd
      · simp [isWordPart, hstart]
      · exact hmore d hd
    rw [span_word hstart, word_closed hparts, wordKind_of_not_mem hfree]
  | string hinside =>
    cases htext
    rw [span_quote, string_closed hinside]
  | number hne hwhole hdigits hnearest hfinite =>
    rw [span_digit (isDigit_head hne hwhole htext.symm), htext, number_closed hwhole hdigits,
      Decimal.ofNumeral_eq_some_iff.mpr ⟨_, hfinite, hnearest, rfl⟩]
    rfl
  | tooGreat hne hwhole hdigits hnearest hinfinite =>
    rw [span_digit (isDigit_head hne hwhole htext.symm), htext, number_closed hwhole hdigits,
      Decimal.ofNumeral_eq_none_iff.mpr ⟨_, hinfinite, hnearest⟩]
    rfl

/-- What is taken at a place: a token, the rest of the text if a string is never closed, or a
character that starts no token. -/
theorem span_lexeme (c : Char) (rest : List Char) :
    Lexeme (span c rest).lexeme (span c rest).found ∨
      (c = '"' ∧ '"' ∉ rest ∧ span c rest = ⟨'"' :: rest, [], .error .unterminatedString⟩) ∨
      (Stray c ∧ span c rest = ⟨[c], rest, .error .unexpectedCharacter⟩) := by
  obtain ⟨alone, withEqual, hdouble, ⟨behind, rfl, hspan⟩ | ⟨-, hspan⟩⟩ | ⟨kind, hsingle, hspan⟩ |
    ⟨rfl, hspan⟩ | ⟨hdigit, hspan⟩ | ⟨hword, hspan⟩ | hstray := span_cases c rest
  · rw [hspan]
    exact .inl (.symbol (mem_symbols_of_double hdouble).2)
  · rw [hspan]
    exact .inl (.symbol (mem_symbols_of_double hdouble).1)
  · rw [hspan]
    exact .inl (.symbol (mem_symbols_of_single hsingle))
  · by_cases hclosed : '"' ∈ rest
    · obtain ⟨inside, behind, rfl, hinside⟩ := List.eq_append_cons_of_mem hclosed
      rw [hspan, string_closed hinside]
      exact .inl (.string hinside)
    · exact .inr (.inl ⟨rfl, hclosed, hspan.trans (string_of_not_mem hclosed)⟩)
  · have hne : (c :: rest).takeWhile isDigit ≠ [] := by simp [hdigit]
    obtain ⟨found, hnumeral, hlexeme⟩ := exists_numeral hne (fun d => List.mem_takeWhile_imp)
      (fraction_lexeme ((c :: rest).dropWhile isDigit)).1
      (numeralText ((c :: rest).takeWhile isDigit) (fraction ((c :: rest).dropWhile isDigit)).1)
      (fraction ((c :: rest).dropWhile isDigit)).2
    rw [hspan, number]
    left
    rwa [← numeralText, hnumeral]
  · have htake : (c :: rest).takeWhile isWordPart = c :: rest.takeWhile isWordPart := by
      simp [isWordPart, hword]
    rw [hspan, word, htake]
    exact .inl (lexeme_word hword fun d => List.mem_takeWhile_imp)
  · exact .inr (.inr hstray)

/-- What is taken at a place, and what is left, are the text from there on. -/
theorem span_split (c : Char) (rest : List Char) :
    c :: rest = (span c rest).lexeme ++ (span c rest).rest := by
  obtain ⟨alone, withEqual, hdouble, ⟨behind, rfl, hspan⟩ | ⟨-, hspan⟩⟩ | ⟨kind, hsingle, hspan⟩ |
    ⟨rfl, hspan⟩ | ⟨hdigit, hspan⟩ | ⟨hword, hspan⟩ | ⟨-, hspan⟩ := span_cases c rest
  · rw [hspan]
    rfl
  · rw [hspan]
    rfl
  · rw [hspan]
    rfl
  · rw [hspan]
    by_cases hclosed : '"' ∈ rest
    · obtain ⟨inside, behind, rfl, hinside⟩ := List.eq_append_cons_of_mem hclosed
      rw [string_closed hinside]
      simp
    · rw [string_of_not_mem hclosed, List.append_nil]
  · have hlexeme : ∀ lexeme rest x, (numeral lexeme rest x).lexeme ++ (numeral lexeme rest x).rest =
        lexeme ++ rest := by
      rintro lexeme rest (_ | _) <;> rfl
    have hsplit := (fraction_lexeme ((c :: rest).dropWhile isDigit)).2
      ((c :: rest).takeWhile isDigit)
    rw [List.takeWhile_append_dropWhile] at hsplit
    rw [hspan, number, hlexeme]
    exact hsplit
  · rw [hspan, word, List.takeWhile_append_dropWhile]
  · rw [hspan]
    rfl

theorem exists_lexeme_cons (c : Char) (rest : List Char) :
    ∃ more, (span c rest).lexeme = c :: more ∧ rest = more ++ (span c rest).rest := by
  have hsplit := span_split c rest
  have hne : (span c rest).lexeme ≠ [] := by
    intro hnil
    have hlength := congrArg List.length hsplit
    rw [hnil, List.nil_append, List.length_cons] at hlength
    have := length_span_le c rest
    omega
  obtain ⟨d, more, hlexeme⟩ := List.exists_cons_of_ne_nil hne
  rw [hlexeme, List.cons_append] at hsplit
  obtain ⟨rfl, hrest⟩ := List.cons.inj hsplit
  exact ⟨more, hlexeme, hrest⟩

/-- No token that starts a text is longer than what is taken there. -/
theorem Lexeme.prefix_span (h : Lexeme (c :: front) found) (hfront : front <+: rest) :
    c :: front <+: (span c rest).lexeme := by
  have hbegins : c :: front <+: c :: rest := List.cons_prefix_cons.mpr ⟨rfl, hfront⟩
  have hword : ∀ {text : List Char}, c :: front = text → isWordStart c = true →
      (∀ d ∈ text, isWordPart d = true) → c :: front <+: (span c rest).lexeme := by
    rintro text rfl hstart hparts
    rw [span_word hstart]
    exact prefix_takeWhile hbegins hparts
  generalize htext : c :: front = text at h
  cases h with
  | symbol hmem =>
    have hspelled := spelled_of_mem_symbols _ hmem
    obtain ⟨more, hlexeme, -⟩ := exists_lexeme_cons c rest
    match front, htext, hspelled with
    | [], rfl, _ =>
      rw [hlexeme]
      exact ⟨more, rfl⟩
    | [d], rfl, ⟨hequal, hwith⟩ =>
      cases hequal
      obtain ⟨⟨alone, withEqual⟩, hdouble, -⟩ := Option.map_eq_some_iff.mp hwith
      obtain ⟨behind, rfl⟩ := hfront
      have hspan : span c (['='] ++ behind) = ⟨[c, '='], behind, .ok (withEqual, none)⟩ := by
        simp only [List.cons_append, List.nil_append, span, hdouble]
      exact hspan.symm ▸ List.prefix_rfl
  | keyword hmem =>
    obtain ⟨-, hstart, hparts⟩ := word_of_mem_keywords _ hmem
    rw [← htext] at hstart hparts ⊢
    exact hword rfl (by simpa using hstart) (by simpa using hparts)
  | identifier hstart hmore hfree =>
    cases htext
    refine hword rfl hstart fun d hd => ?_
    rcases List.mem_cons.mp hd with rfl | hd
    · simp [isWordPart, hstart]
    · exact hmore d hd
  | @string inside hinside =>
    cases htext
    obtain ⟨behind, rfl⟩ := hfront
    have hspan : span '"' (inside ++ ['"'] ++ behind) =
        ⟨'"' :: (inside ++ ['"']), behind, .ok (.string, some (.string (String.ofList inside)))⟩ := by
      rw [span_quote, List.append_assoc, List.singleton_append, string_closed hinside]
    exact hspan.symm ▸ List.prefix_rfl
  | number hne hwhole hdigits hnearest hfinite =>
    rw [span_digit (isDigit_head hne hwhole htext.symm)]
    exact prefix_number hwhole hdigits (htext ▸ hbegins)
  | tooGreat hne hwhole hdigits hnearest hinfinite =>
    rw [span_digit (isDigit_head hne hwhole htext.symm)]
    exact prefix_number hwhole hdigits (htext ▸ hbegins)

/-- Among the tokens there are no errors but numerals that are too great. -/
theorem Lexeme.cause_eq {text : List Char} {cause : LexicalError.Cause} (h : Lexeme text found)
    (hfound : found = .error cause) : cause = .invalidNumber := by
  cases h <;> cases hfound
  rfl

/-- What is no token does not start one. -/
theorem Stray.not_lexeme (h : Stray c) : ¬ Lexeme (c :: front) found := by
  intro hlexeme
  have hspan := hlexeme.span_eq
  obtain ⟨alone, withEqual, hdouble, -⟩ | ⟨kind, hsingle, -⟩ | ⟨hquote, -⟩ | ⟨hdigit, -⟩ |
    ⟨hword, -⟩ | ⟨-, hstray⟩ := span_cases c front
  · exact absurd (h.double.symm.trans hdouble) nofun
  · exact absurd (h.single.symm.trans hsingle) nofun
  · exact h.quote hquote
  · exact absurd (h.digit.symm.trans hdigit) nofun
  · exact absurd (h.word.symm.trans hword) nofun
  · rw [hstray] at hspan
    exact absurd (hlexeme.cause_eq (congrArg Span.found hspan).symm) nofun

/-- Where a quote is never closed no token starts. -/
theorem not_lexeme_of_unclosed (h : '"' ∉ rest) (hfront : front <+: rest) :
    ¬ Lexeme ('"' :: front) found := by
  intro hlexeme
  have hspan := hlexeme.span_eq
  rw [span_quote, string_of_not_mem fun hmem => h (hfront.subset hmem)] at hspan
  exact absurd (hlexeme.cause_eq (congrArg Span.found hspan).symm) nofun

end Spans

end Lox.Lexer
