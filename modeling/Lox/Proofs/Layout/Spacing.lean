import Lox.Proofs.Grammar.Joining
import Lox.Proofs.Token.MaximalMunch

/-!
# Tokens with space around them

A text may write tokens with any space between them, or with none where the next one does not carry
the one before it on. However that is done, scanning the text gives the tokens, on some lines.
-/
namespace Lox

/-- A token that stands for what its text is in the lexical grammar. -/
def Token.Lexical (t : Token) : Prop :=
  Lexer.Lexeme t.lexeme.toList (.ok (t.kind, t.literal))

namespace Lexer

section Spacing
variable {c : Char} {gap text rest : List Char} {line : Int}

/-- What can be put anywhere between tokens: blanks, and comments with the line feed behind them. -/
inductive Spacing : List Char → Prop where
  | nil : Spacing []
  | blank {c : Char} {rest : List Char} (h : Text.isBlank c = true) (hrest : Spacing rest) :
    Spacing (c :: rest)
  | comment {body rest : List Char} (h : '\n' ∉ body) (hrest : Spacing rest) :
    Spacing ('/' :: '/' :: (body ++ '\n' :: rest))

theorem Spacing.append (h : Spacing gap) (hrest : Spacing rest) : Spacing (gap ++ rest) := by
  induction h with
  | nil => exact hrest
  | blank hblank _ ih => exact .blank hblank ih
  | comment hbody _ ih =>
    rw [List.cons_append, List.cons_append, List.append_assoc]
    exact .comment hbody ih

/-- Behind space, skipping begins anew. -/
theorem Spacing.skip_append (h : Spacing gap) (line : Int) (rest : List Char) :
    skip line false (gap ++ rest) = skip (line + gap.count '\n') false rest := by
  induction h generalizing line with
  | nil => simp
  | @blank c gap hblank _ ih =>
    by_cases hfeed : c = '\n'
    · subst hfeed
      rw [List.cons_append, skip_feed, ih, List.count_cons_self]
      push_cast
      rw [Int.add_assoc, Int.add_comm 1]
    · have hslash : c ≠ '/' := by
        rintro rfl
        exact absurd hblank (by decide)
      rw [List.cons_append, skip_cons hfeed (fun heq => absurd heq hslash),
        List.count_cons_of_ne hfeed, ← ih]
      simp [hblank]
  | @comment body gap hbody _ ih =>
    have hcount : ('/' :: '/' :: (body ++ '\n' :: gap)).count '\n' = gap.count '\n' + 1 := by
      rw [List.count_cons_of_ne (by decide), List.count_cons_of_ne (by decide), List.count_append,
        List.count_eq_zero_of_not_mem hbody, Nat.zero_add, List.count_cons_self]
    rw [hcount, List.cons_append, List.cons_append, List.append_assoc, skip_slashes, skip_body hbody,
      List.cons_append, skip_feed, ih]
    push_cast
    rw [Int.add_assoc, Int.add_comm 1]

/-- Space at the end of a text. -/
theorem Spacing.skip (h : Spacing gap) (line : Int) :
    Lexer.skip line false gap = ⟨line + gap.count '\n', []⟩ := by
  have hskip := h.skip_append line []
  rwa [List.append_nil] at hskip

end Spacing

section Blanks
variable {c : Char} {more : List Char} {found : Except LexicalError.Cause (Kind × Option Atom)}

/-- Blanks are no part of words and numerals. -/
theorem isWordPart_of_isBlank (h : Text.isBlank c = true) : isWordPart c = false := by
  have hcodes : (9 ≤ c.toNat ∧ c.toNat ≤ 13) ∨ (28 ≤ c.toNat ∧ c.toNat ≤ 32) ∨ c.toNat = 133 ∨
      c.toNat = 160 ∨ c.toNat = 5760 ∨ (8192 ≤ c.toNat ∧ c.toNat ≤ 8202) ∨ c.toNat = 8232 ∨
      c.toNat = 8233 ∨ c.toNat = 8239 ∨ c.toNat = 8287 ∨ c.toNat = 12288 := by
    simpa [Text.isBlank, or_assoc] using h
  have hc : c = Char.ofNat c.toNat := (Char.ofNat_toNat c).symm
  generalize c.toNat = code at *
  subst hc
  rcases hcodes with ⟨hlow, hhigh⟩ | ⟨hlow, hhigh⟩ | rfl | rfl | rfl | ⟨hlow, hhigh⟩ | rfl | rfl |
    rfl | rfl | rfl
  case inl | inr.inl | inr.inr.inr.inr.inr.inl => interval_cases code <;> decide +kernel
  all_goals decide +kernel

theorem Lexeme.isBlank_eq_false (h : Lexeme (c :: more) found) : Text.isBlank c = false := by
  have hword : isWordPart c = true → Text.isBlank c = false := by
    intro hpart
    by_contra hblank
    rw [Bool.not_eq_false] at hblank
    exact absurd (hpart.symm.trans (isWordPart_of_isBlank hblank)) nofun
  generalize htext : c :: more = text at h
  cases h with
  | symbol hmem =>
    have hall : symbols.all (fun entry => entry.1.head?.all fun d => !Text.isBlank d) = true := by
      decide
    have hhead := List.all_eq_true.mp hall _ hmem
    rw [← htext] at hhead
    simpa using hhead
  | keyword hmem =>
    obtain ⟨-, hstart, -⟩ := word_of_mem_keywords _ hmem
    rw [← htext] at hstart
    have hword' : isWordStart c = true := by simpa using hstart
    exact hword (by simp [isWordPart, hword'])
  | identifier hstart =>
    cases htext
    exact hword (by simp [isWordPart, hstart])
  | string =>
    cases htext
    rfl
  | number hne hwhole | tooGreat hne hwhole =>
    exact hword (isWordPart_of_isDigit (isDigit_head hne hwhole htext.symm))

/-- A slash at the start of a token is all of it. -/
theorem Lexeme.eq_slash (h : Lexeme ('/' :: more) found) : more = [] :=
  congrArg Span.rest h.span_eq

end Blanks

section Writing
variable {c : Char} {behind text : List Char} {token : Token} {tokens : List Token} {line : Int}

/-- What is behind a token neither carries it on nor makes a comment of it. -/
def Parted (t : Token) (behind : List Char) : Prop :=
  ∀ c ∈ t.lexeme.toList.head?, Apart c behind ∧ (c = '/' → behind.head? ≠ some '/')

/-- A text writes tokens one after the other, with space around them. -/
inductive Writes : List Token → List Char → Prop where
  | nil {gap : List Char} (h : Spacing gap) : Writes [] gap
  | cons {token : Token} {tokens : List Token} {gap text : List Char} (hgap : Spacing gap)
    (hparted : Parted token text) (h : Writes tokens text) :
    Writes (token :: tokens) (gap ++ token.lexeme.toList ++ text)

/-- Where a token is written the token is found. -/
theorem skip_lexeme (ht : token.Lexical) (hparted : Parted token behind) (line : Int) :
    ∃ c more, skip line false (token.lexeme.toList ++ behind) = ⟨line, c :: (more ++ behind)⟩ ∧
      span c (more ++ behind) =
        ⟨token.lexeme.toList, behind, .ok (token.kind, token.literal)⟩ := by
  obtain ⟨c, more, hlexeme⟩ := ht.exists_cons
  unfold Token.Lexical at ht
  unfold Parted at hparted
  rw [hlexeme] at ht hparted ⊢
  obtain ⟨hapart, hslash⟩ := hparted c rfl
  have hblank := ht.isBlank_eq_false
  have hfeed : c ≠ '\n' := by
    rintro rfl
    exact absurd hblank (by decide)
  have hcomment : c = '/' → (more ++ behind).head? ≠ some '/' := by
    rintro rfl
    obtain rfl := ht.eq_slash
    exact hslash rfl
  refine ⟨c, more, ?_, ?_⟩
  · rw [List.cons_append, skip_cons hfeed hcomment, hblank]
    rfl
  · have hspan := ht.span_eq
    rw [span_append (by rw [hspan]; nofun) hapart, hspan]
    rfl

/-- Scanning a text that writes tokens gives the tokens, apart from their lines. -/
theorem Writes.scan (h : Writes tokens text) (hlexical : ∀ t ∈ tokens, t.Lexical) (line : Int) :
    (Lexer.scan ⟨line, text⟩).1.map (relineHead fun _ => 0) =
      tokens.map fun t => .ok (t.reline fun _ => 0) := by
  induction h generalizing line with
  | nil hgap =>
    rw [scan_of_end (hgap.skip line)]
    rfl
  | @cons token tokens gap text hgap hparted _ ih =>
    obtain ⟨ht, hrest⟩ := List.forall_mem_cons.mp hlexical
    obtain ⟨c, more, hskip, hspan⟩ := skip_lexeme ht hparted (line + gap.count '\n')
    rw [← hgap.skip_append line, ← List.append_assoc] at hskip
    rw [scan_of_token hskip, hspan, List.map_cons, List.map_cons, ih hrest]
    simp only [Span.outcome, String.ofList_toList]
    rfl

/-- What a text delivers is what the lexical grammar makes of it. -/
theorem lexical_of_mem_scan {place : Place} (h : .ok token ∈ (Lexer.scan place).1) :
    token.Lexical := by
  obtain ⟨line, text⟩ := place
  induction hlength : text.length using Nat.strong_induction_on generalizing line text with
  | _ length ih =>
    cases hskip : skip line false text with
    | mk first rest =>
      cases rest with
      | nil =>
        rw [scan_of_end hskip] at h
        cases h
      | cons c rest =>
        rw [scan_of_token hskip] at h
        rcases List.mem_cons.mp h with heq | hlater
        · unfold Span.outcome at heq
          split at heq
          · cases heq
          · rename_i kind literal hfound
            cases heq
            rcases span_lexeme c rest with hlexeme | ⟨-, -, hspan⟩ | ⟨-, hspan⟩
            · rw [hfound] at hlexeme
              simpa [Token.Lexical] using hlexeme
            all_goals
              rw [hspan] at hfound
              cases hfound
        · exact ih _ (hlength ▸ length_span_lt hskip) _ _ hlater rfl

end Writing

end Lexer

/-- The tokens of a text are tokens of the lexical grammar. -/
theorem TokenStream.lexical_of_mem_ofText {text : String} {t : Token}
    (h : .ok t ∈ (ofText text).pending) : t.Lexical :=
  Lexer.lexical_of_mem_scan h

end Lox
