import Lox.Proofs.Shell.Continuation
import Lox.Proofs.Token.MaximalMunch
import Lox.Shell.Basic

/-!
# What a text leaves open, in tokens

The shell reads a line character by character and the scanner takes it token by token, each with its
own idea of strings and comments. They agree on where these begin and end. So a text is continued
exactly if the scanner finds a string in it that is never closed, or more opening than closing braces
and parentheses.
-/
namespace Lox

/-- What a token adds to the braces and parentheses that are open. -/
def Kind.balance : Kind → Int
  | .leftParen | .leftBrace => 1
  | .rightParen | .rightBrace => -1
  | _ => 0

/-- How many of the tokens of a stream are of one of these kinds. -/
def TokenStream.count (kinds : List Kind) (s : TokenStream) : Nat :=
  s.pending.countP fun
    | .ok token => kinds.contains token.kind
    | .error _ => false

namespace Shell
open Lexer
variable {c : Char} {text rest : List Char} {balance : Int}
  {found : Except LexicalError.Cause (Kind × Option Atom)}

/-- What a character of code adds to the braces and parentheses that are open. -/
def charBalance (c : Char) : Int :=
  if c = '(' ∨ c = '{' then 1 else if c = ')' ∨ c = '}' then -1 else 0

/-- What a token or an error adds to the braces and parentheses that are open. -/
def foundBalance : Except LexicalError.Cause (Kind × Option Atom) → Int
  | .ok (kind, _) => kind.balance
  | .error _ => 0

/-- The same for what the scanner delivers. -/
def outcomeBalance : Except LexicalError Token → Int
  | .ok token => token.kind.balance
  | .error _ => 0

theorem found_of_outcome {s : Span} {cause : LexicalError.Cause} {line last : Int}
    (h : s.outcome line = .error ⟨cause, last⟩) : s.found = .error cause := by
  unfold Span.outcome at h
  split at h
  · rename_i hfound
    cases h
    exact hfound
  · cases h

theorem outcomeBalance_outcome (s : Span) (line : Int) :
    outcomeBalance (s.outcome line) = foundBalance s.found := by
  unfold Span.outcome
  cases s.found <;> rfl

section Characters

/-- A character of code that begins neither a string nor a comment. -/
theorem leavesOpenFrom_char (hquote : c ≠ '"') (hslash : c = '/' → rest.head? ≠ some '/') :
    leavesOpenFrom .code balance (c :: rest) =
      leavesOpenFrom .code (balance + charBalance c) rest := by
  rw [leavesOpenFrom_code_cons hslash, if_neg hquote]
  unfold charBalance
  by_cases hopening : c = '(' ∨ c = '{'
  · rw [if_pos hopening, if_pos (by simpa using hopening)]
  · rw [if_neg hopening, if_neg (by simpa using hopening)]
    by_cases hclosing : c = ')' ∨ c = '}'
    · rw [if_pos hclosing, if_pos (by simpa using hclosing)]
      rfl
    · rw [if_neg hclosing, if_neg (by simpa using hclosing), Int.add_zero]

/-- A text of code without quotes and slashes. -/
theorem leavesOpenFrom_chars (hquote : '"' ∉ text) (hslash : '/' ∉ text) :
    leavesOpenFrom .code balance (text ++ rest) =
      leavesOpenFrom .code (balance + (text.map charBalance).sum) rest := by
  induction text generalizing balance with
  | nil => simp
  | cons c text ih =>
    obtain ⟨hc, hquote⟩ := List.ne_and_not_mem_of_not_mem_cons hquote
    obtain ⟨hother, hslash⟩ := List.ne_and_not_mem_of_not_mem_cons hslash
    rw [List.cons_append, leavesOpenFrom_char hc.symm fun heq => absurd heq.symm hother,
      ih hquote hslash, List.map_cons, List.sum_cons, Int.add_assoc]

/-- A text of code without any character that counts. -/
theorem leavesOpenFrom_plain (h : ∀ c ∈ text, c ≠ '"' ∧ c ≠ '/' ∧ charBalance c = 0) :
    leavesOpenFrom .code balance (text ++ rest) = leavesOpenFrom .code balance rest := by
  induction text with
  | nil => rfl
  | cons c text ih =>
    obtain ⟨⟨hquote, hslash, hcount⟩, htext⟩ := List.forall_mem_cons.mp h
    rw [List.cons_append, leavesOpenFrom_char hquote fun heq => absurd heq hslash, hcount,
      Int.add_zero, ih htext]

theorem charBalance_eq_zero (h : single? c = none) : charBalance c = 0 := by
  have other {d : Char} (hd : single? d ≠ none) : c ≠ d := by
    rintro rfl
    exact hd h
  rw [charBalance, if_neg (not_or.mpr ⟨other (by decide), other (by decide)⟩),
    if_neg (not_or.mpr ⟨other (by decide), other (by decide)⟩)]

theorem plain_of_isWordPart (h : isWordPart c = true) : c ≠ '"' ∧ c ≠ '/' ∧ charBalance c = 0 := by
  have other {d : Char} (hd : isWordPart d = false) : c ≠ d := by
    rintro rfl
    exact absurd (h.symm.trans hd) nofun
  exact ⟨other (by decide), other (by decide), charBalance_eq_zero (tables_eq_none (.inl h)).2⟩

/-- A string is left where it is closed. -/
theorem leavesOpenFrom_inside (h : '"' ∉ text) :
    leavesOpenFrom .string balance (text ++ '"' :: rest) = leavesOpenFrom .code balance rest := by
  induction text with
  | nil => rw [List.nil_append, leavesOpenFrom_string_cons, if_pos rfl]
  | cons c text ih =>
    obtain ⟨hc, htext⟩ := List.ne_and_not_mem_of_not_mem_cons h
    rw [List.cons_append, leavesOpenFrom_string_cons, if_neg hc.symm, ih htext]

/-- A string that is never closed is left open. -/
theorem leavesOpenFrom_unclosed (h : '"' ∉ text) : leavesOpenFrom .string balance text = true := by
  induction text with
  | nil => simp [leavesOpenFrom]
  | cons c text ih =>
    obtain ⟨hc, htext⟩ := List.ne_and_not_mem_of_not_mem_cons h
    rw [leavesOpenFrom_string_cons, if_neg hc.symm, ih htext]

end Characters

section Tokens

/-- The characters of a symbol add up to the symbol. -/
theorem balance_of_mem_symbols : ∀ entry ∈ symbols, entry.1 = ['/'] ∧ entry.2 = .slash ∨
    ('"' ∉ entry.1 ∧ '/' ∉ entry.1) ∧ (entry.1.map charBalance).sum = entry.2.balance := by
  decide

theorem balance_of_mem_keywords : ∀ entry ∈ keywords, entry.2.balance = 0 := by
  decide

theorem plain_of_mem_numeralText {whole digits : List Char} (hwhole : ∀ d ∈ whole, isDigit d = true)
    (hdigits : ∀ d ∈ digits, isDigit d = true) :
    ∀ c ∈ numeralText whole digits, c ≠ '"' ∧ c ≠ '/' ∧ charBalance c = 0 := by
  have hplain : ∀ {d}, isDigit d = true → d ≠ '"' ∧ d ≠ '/' ∧ charBalance d = 0 := fun h =>
    plain_of_isWordPart (isWordPart_of_isDigit h)
  intro c hc
  unfold numeralText at hc
  split at hc
  · exact hplain (hwhole c hc)
  · rcases List.mem_append.mp hc with hc | hc
    · exact hplain (hwhole c hc)
    · rcases List.mem_cons.mp hc with rfl | hc
      · decide
      · exact hplain (hdigits c hc)

/-- The characters of a token act like the token. -/
theorem leavesOpenFrom_lexeme (h : Lexeme text found)
    (hslash : text = ['/'] → rest.head? ≠ some '/') :
    leavesOpenFrom .code balance (text ++ rest) =
      leavesOpenFrom .code (balance + foundBalance found) rest := by
  cases h with
  | symbol hmem =>
    rcases balance_of_mem_symbols _ hmem with ⟨rfl, rfl⟩ | ⟨⟨hquote, hother⟩, hsum⟩
    · exact leavesOpenFrom_char (by decide) fun _ => hslash rfl
    · rw [leavesOpenFrom_chars hquote hother, hsum]
      rfl
  | keyword hmem =>
    obtain ⟨-, -, hparts⟩ := word_of_mem_keywords _ hmem
    rw [leavesOpenFrom_plain fun c hc => plain_of_isWordPart (List.all_eq_true.mp hparts c hc),
      foundBalance, balance_of_mem_keywords _ hmem, Int.add_zero]
  | @identifier c more hstart hmore hfree =>
    have hparts : ∀ d ∈ c :: more, isWordPart d = true :=
      List.forall_mem_cons.mpr ⟨by simp [isWordPart, hstart], hmore⟩
    rw [leavesOpenFrom_plain fun d hd => plain_of_isWordPart (hparts d hd)]
    exact congrArg (leavesOpenFrom .code · rest) (Int.add_zero balance).symm
  | @string inside hinside =>
    rw [List.cons_append, List.append_assoc, List.singleton_append,
      leavesOpenFrom_code_cons (by simp), if_pos rfl, leavesOpenFrom_inside hinside]
    exact congrArg (leavesOpenFrom .code · rest) (Int.add_zero balance).symm
  | number hne hwhole hdigits hnearest hfinite =>
    rw [leavesOpenFrom_plain (plain_of_mem_numeralText hwhole hdigits)]
    exact congrArg (leavesOpenFrom .code · rest) (Int.add_zero balance).symm
  | tooGreat hne hwhole hdigits hnearest hinfinite =>
    rw [leavesOpenFrom_plain (plain_of_mem_numeralText hwhole hdigits)]
    exact congrArg (leavesOpenFrom .code · rest) (Int.add_zero balance).symm

end Tokens

section Places

/-- What the scanner passes over opens nothing. -/
theorem leavesOpenFrom_skip (line : Int) (inComment : Bool) (text : List Char) :
    leavesOpenFrom (if inComment then .comment else .code) balance text =
      leavesOpenFrom .code balance (skip line inComment text).rest := by
  fun_induction skip line inComment text with
  | case1 line inComment => cases inComment <;> simp [leavesOpenFrom]
  | case2 line inComment rest ih =>
    rw [← ih]
    cases inComment with
    | false => exact leavesOpenFrom_code_blank Text.isBlank_newline
    | true => exact leavesOpenFrom_comment_cons
  | case3 line inComment rest ih =>
    rw [← ih]
    cases inComment <;> simp [leavesOpenFrom]
  | case4 line c rest hfeed hslash ih =>
    rw [← ih]
    simp only [if_true]
    rw [leavesOpenFrom_comment_cons, if_neg hfeed]
  | case5 line inComment c rest hfeed hslash hcomment hblank ih =>
    rw [← ih, if_neg hcomment]
    exact leavesOpenFrom_code_blank hblank
  | case6 line inComment c rest hfeed hslash hcomment hblank => rw [if_neg hcomment]

/-- Where the scanner stops passing over there is no comment. -/
theorem head?_of_skip {first last : Int} {inComment : Bool}
    (h : skip first inComment text = ⟨last, '/' :: rest⟩) : rest.head? ≠ some '/' := by
  fun_induction skip first inComment text with
  | case1 => cases h
  | case2 _ _ _ ih | case3 _ _ _ ih | case4 _ _ _ _ _ ih | case5 _ _ _ _ _ _ _ _ ih => exact ih h
  | case6 line inComment c behind hfeed hslash hcomment hblank =>
    cases h
    intro hd
    obtain ⟨rest, rfl⟩ := List.head?_eq_some_iff.mp hd
    exact hslash rest rfl rfl

/-- What is taken at a place acts like what is found there, unless it is a string that is never
closed. -/
theorem leavesOpenFrom_span (hslash : c = '/' → rest.head? ≠ some '/') :
    ((span c rest).found = .error .unterminatedString ∧
        ∀ balance, leavesOpenFrom .code balance (c :: rest) = true) ∨
      (span c rest).found ≠ .error .unterminatedString ∧
        ∀ balance, leavesOpenFrom .code balance (c :: rest) =
          leavesOpenFrom .code (balance + foundBalance (span c rest).found) (span c rest).rest := by
  rcases span_lexeme c rest with hlexeme | ⟨rfl, hopen, hspan⟩ | ⟨hstray, hspan⟩
  · refine .inr ⟨fun hfound => ?_, fun balance => ?_⟩
    · exact absurd (hlexeme.cause_eq hfound) nofun
    · have hsplit := span_split c rest
      rw [← leavesOpenFrom_lexeme hlexeme, ← hsplit]
      intro hlexeme
      rw [hlexeme, List.singleton_append] at hsplit
      obtain ⟨hc, hrest⟩ := List.cons.inj hsplit
      exact hrest ▸ hslash hc
  · refine .inl ⟨by rw [hspan], fun balance => ?_⟩
    rw [leavesOpenFrom_code_cons (by simp), if_pos rfl, leavesOpenFrom_unclosed hopen]
  · refine .inr ⟨by rw [hspan]; nofun, fun balance => ?_⟩
    rw [hspan, leavesOpenFrom_char hstray.quote hslash, charBalance_eq_zero hstray.single]
    rfl

/-- A text is left open if a string is never closed in it, or more is opened than closed. -/
theorem leavesOpenFrom_iff (line : Int) (text : List Char) (balance : Int) :
    leavesOpenFrom .code balance text = true ↔
      (∃ last, .error ⟨.unterminatedString, last⟩ ∈ (scan ⟨line, text⟩).1) ∨
        0 < balance + ((scan ⟨line, text⟩).1.map outcomeBalance).sum := by
  induction hlength : text.length using Nat.strong_induction_on generalizing line text balance with
  | _ length ih =>
    have hskipped := @leavesOpenFrom_skip balance line false text
    simp only [Bool.false_eq_true, if_false] at hskipped
    rw [hskipped]
    cases hskip : skip line false text with
    | mk first behind =>
      cases behind with
      | nil =>
        rw [scan_of_end hskip]
        simp [leavesOpenFrom]
      | cons c rest =>
        have hslash : c = '/' → rest.head? ≠ some '/' := by
          rintro rfl
          exact head?_of_skip hskip
        rw [scan_of_token hskip, List.map_cons, List.sum_cons, outcomeBalance_outcome,
          ← Int.add_assoc]
        rcases leavesOpenFrom_span hslash with ⟨hfound, hopen⟩ | ⟨hfound, hstep⟩
        · have hfirst : (span c rest).outcome (first + (span c rest).lexeme.count '\n') =
              .error ⟨.unterminatedString, first + (span c rest).lexeme.count '\n'⟩ := by
            rw [Span.outcome, hfound]
          exact iff_of_true (hopen balance) (.inl ⟨_, List.mem_cons.mpr (.inl hfirst.symm)⟩)
        · have hfirst : ∀ last, .error ⟨.unterminatedString, last⟩ ≠
              (span c rest).outcome (first + (span c rest).lexeme.count '\n') := fun last heq =>
            hfound (found_of_outcome heq.symm)
          rw [hstep, ih _ (hlength ▸ length_span_lt hskip) (first + (span c rest).lexeme.count '\n') _ _
            rfl]
          simp only [List.mem_cons, hfirst, false_or]

end Places

theorem balance_eq (kind : Kind) : kind.balance =
    (if [Kind.leftParen, .leftBrace].contains kind then 1 else 0) -
      if [Kind.rightParen, .rightBrace].contains kind then 1 else 0 := by
  cases kind <;> rfl

/-- The balance of a list of tokens and errors is a difference of counts. -/
theorem sum_outcomeBalance (s : TokenStream) :
    (s.pending.map outcomeBalance).sum =
      s.count [.leftParen, .leftBrace] - s.count [.rightParen, .rightBrace] := by
  obtain ⟨pending, lastLine⟩ := s
  unfold TokenStream.count
  induction pending with
  | nil => rfl
  | cons outcome pending ih =>
    rw [List.map_cons, List.sum_cons, ih, List.countP_cons, List.countP_cons]
    push_cast
    cases outcome with
    | error error => simp [outcomeBalance]
    | ok token =>
      rw [outcomeBalance, balance_eq]
      ring

/-- The shell hands a line on as it is, and continues it exactly if the scanner, which goes on behind
each error, finds a string in it that is never closed or more opening than closing braces and
parentheses. -/
theorem checked_iff_scanned (text : String) :
    (checked text).1 = text ∧
      ((checked text).2 = true ↔
        (∃ line, .error ⟨.unterminatedString, line⟩ ∈ (TokenStream.ofText text).pending) ∨
          (TokenStream.ofText text).count [.rightParen, .rightBrace] <
            (TokenStream.ofText text).count [.leftParen, .leftBrace]) := by
  have hscan : (TokenStream.ofText text).pending = (scan ⟨1, text.toList⟩).1 := rfl
  have hsum := sum_outcomeBalance (TokenStream.ofText text)
  refine ⟨rfl, ?_⟩
  rw [checked, leavesOpen, leavesOpenFrom_iff 1, ← hscan, hsum]
  refine or_congr_right ?_
  omega

end Shell

end Lox
