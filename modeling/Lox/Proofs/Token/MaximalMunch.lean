import Lox.Proofs.Token.Lexemes

/-!
# The scanner takes the longest token

The lexical grammar says which texts are tokens, and which texts stand between tokens. Reading a text
by the grammar alone means to pass over as much as can be ignored, to take the longest beginning that is
a token, and to go on behind it. The scanner does the same, on every text.
-/
namespace Lox.Lexer

section Reference

/-- `span` is the longest beginning of `text` with a property, and `rest` is what is left. -/
structure Longest (p : List Char → Prop) (text span rest : List Char) : Prop where
  split : text = span ++ rest
  holds : p span
  longest : ∀ other, other <+: text → p other → other.length ≤ span.length

/-- What may stand between tokens: blanks, and comments as far as the end of their line. -/
inductive Ignored : List Char → Prop where
  | nil : Ignored []
  | blank {c : Char} {rest : List Char} (h : Text.isBlank c = true) (hrest : Ignored rest) :
    Ignored (c :: rest)
  | comment {body rest : List Char} (h : '\n' ∉ body) (hrest : Ignored rest) :
    Ignored ('/' :: '/' :: (body ++ rest))

/-- What the grammar finds where nothing can be ignored: the characters taken, those behind them, and
the token, or the reason why there is none. -/
inductive Finds :
    List Char → List Char → List Char → Except LexicalError.Cause (Kind × Option Atom) → Prop where
  | token {text span rest : List Char} {found : Except LexicalError.Cause (Kind × Option Atom)}
    (hlongest : Longest IsLexeme text span rest) (h : Lexeme span found) : Finds text span rest found
  | unclosed {inside : List Char} (h : '"' ∉ inside) :
    Finds ('"' :: inside) ('"' :: inside) [] (.error .unterminatedString)
  | stray {c : Char} {rest : List Char} (hquote : c ≠ '"')
    (h : ∀ text, text <+: c :: rest → ¬ IsLexeme text) :
    Finds (c :: rest) [c] rest (.error .unexpectedCharacter)

/-- The line on which a text ends. -/
def lastLine (text : List Char) : Int :=
  1 + text.count '\n'

/-- The first tokens and errors that the grammar gives for `text`, which stands behind the text
`before`. At the end there is the end token, over and over. -/
inductive Munches : List Char → List Char → List (Except LexicalError Token) → Prop where
  | stop {before text : List Char} : Munches before text []
  | ended {before text ignored : List Char} {outcomes : List (Except LexicalError Token)}
    (hskip : Longest Ignored text ignored []) (later : Munches (before ++ ignored) [] outcomes) :
    Munches before text (.ok ⟨.eof, "", none, lastLine (before ++ ignored)⟩ :: outcomes)
  | next {before text ignored behind span rest : List Char}
    {found : Except LexicalError.Cause (Kind × Option Atom)}
    {outcomes : List (Except LexicalError Token)} (hskip : Longest Ignored text ignored behind)
    (hfind : Finds behind span rest found)
    (later : Munches (before ++ ignored ++ span) rest outcomes) :
    Munches before text
      (Span.outcome ⟨span, rest, found⟩ (lastLine (before ++ ignored ++ span)) :: outcomes)

end Reference

theorem Longest.begins {p : List Char → Prop} {text span rest : List Char}
    (h : Longest p text span rest) : span <+: text :=
  h.split ▸ List.prefix_append _ _

/-- There is only one longest beginning. -/
theorem Longest.unique {p : List Char → Prop} {text span rest span' rest' : List Char}
    (h : Longest p text span rest) (h' : Longest p text span' rest') :
    span = span' ∧ rest = rest' := by
  have hle := h'.longest span h.begins h.holds
  have hge := h.longest span' h'.begins h'.holds
  exact List.append_inj (h.split.symm.trans h'.split) (Nat.le_antisymm hle hge)

section Skipping
variable {line last : Int} {c : Char} {text rest : List Char}

/-- In a comment, everything but a line feed is passed over. -/
theorem skip_comment (hc : c ≠ '\n') (rest : List Char) :
    skip line true (c :: rest) = skip line true rest := by
  induction rest with
  | nil =>
    rw [skip_cons hc (by simp)]
    rfl
  | cons d rest ih =>
    by_cases hslashes : c = '/' ∧ d = '/'
    · obtain ⟨rfl, rfl⟩ := hslashes
      rw [ih]
      simp [skip]
    · rw [skip_cons hc (by simpa using fun heq => (hslashes ⟨heq, ·⟩))]
      rfl

theorem skip_body {body : List Char} (h : '\n' ∉ body) (rest : List Char) :
    skip line true (body ++ rest) = skip line true rest := by
  induction body with
  | nil => rfl
  | cons c body ih =>
    obtain ⟨hc, hbody⟩ := List.ne_and_not_mem_of_not_mem_cons h
    rw [List.cons_append, skip_comment hc.symm, ih hbody]

theorem skip_slashes (inComment : Bool) (rest : List Char) :
    skip line inComment ('/' :: '/' :: rest) = skip line true rest := by
  simp [skip]

theorem skip_feed (inComment : Bool) (rest : List Char) :
    skip line inComment ('\n' :: rest) = skip (line + 1) false rest := by
  simp [skip]

/-- What may be ignored is passed over. -/
theorem Ignored.skip_append {ignored : List Char} (h : Ignored ignored) (line : Int)
    (inComment : Bool) (rest : List Char) :
    ∃ inComment', skip line inComment (ignored ++ rest) =
      skip (line + ignored.count '\n') inComment' rest := by
  induction h generalizing line inComment with
  | nil => exact ⟨inComment, by simp⟩
  | @blank c ignored hblank hrest ih =>
    by_cases hfeed : c = '\n'
    · subst hfeed
      obtain ⟨inComment', heq⟩ := ih (line + 1) false
      refine ⟨inComment', ?_⟩
      rw [List.cons_append, skip_feed, heq, List.count_cons_self]
      push_cast
      rw [Int.add_assoc, Int.add_comm 1]
    · obtain ⟨inComment', heq⟩ := ih line inComment
      refine ⟨inComment', ?_⟩
      have hslash : c ≠ '/' := by
        rintro rfl
        exact absurd hblank (by decide)
      rw [List.cons_append, skip_cons hfeed (fun heq => absurd heq hslash),
        List.count_cons_of_ne hfeed, ← heq]
      cases inComment <;> simp [hblank]
  | @comment body ignored hbody hrest ih =>
    obtain ⟨inComment', heq⟩ := ih line true
    refine ⟨inComment', ?_⟩
    have hcount : ('/' :: '/' :: (body ++ ignored)).count '\n' = ignored.count '\n' := by
      rw [List.count_cons_of_ne (by decide), List.count_cons_of_ne (by decide), List.count_append,
        List.count_eq_zero_of_not_mem hbody, Nat.zero_add]
    rw [hcount, ← heq, List.cons_append, List.cons_append, List.append_assoc, skip_slashes,
      skip_body hbody]

/-- A comment goes on with every character but a line feed. -/
theorem Ignored.comment_cons (h : Ignored ('/' :: '/' :: text)) (hc : c ≠ '\n') :
    Ignored ('/' :: '/' :: c :: text) := by
  generalize hwhole : '/' :: '/' :: text = whole at h
  cases h with
  | nil => cases hwhole
  | blank hblank =>
    cases hwhole
    exact absurd hblank (by decide)
  | @comment body rest hbody hrest =>
    cases hwhole
    exact @Ignored.comment (c :: body) rest (by simp [hbody, hc.symm]) hrest

/-- What is passed over may be ignored; in a comment, it belongs behind the two slashes. -/
theorem ignored_of_skip {inComment : Bool} (h : skip line inComment text = ⟨last, rest⟩) :
    ∃ ignored, text = ignored ++ rest ∧ last = line + ignored.count '\n' ∧
      Ignored (if inComment then '/' :: '/' :: ignored else ignored) := by
  have hslashes : Ignored ['/', '/'] := @Ignored.comment [] [] nofun .nil
  fun_induction skip line inComment text with
  | case1 line inComment =>
    cases h
    refine ⟨[], rfl, by simp, ?_⟩
    cases inComment
    · exact .nil
    · exact hslashes
  | case2 line inComment text ih =>
    obtain ⟨ignored, rfl, rfl, hignored⟩ := ih h
    have hfeed : Ignored ('\n' :: ignored) := .blank Text.isBlank_newline hignored
    refine ⟨'\n' :: ignored, rfl, ?_, ?_⟩
    · rw [List.count_cons_self]
      push_cast
      rw [Int.add_assoc, Int.add_comm 1]
    · cases inComment
      · exact hfeed
      · exact @Ignored.comment [] _ nofun hfeed
  | case3 line inComment text ih =>
    obtain ⟨ignored, rfl, rfl, hignored⟩ := ih h
    refine ⟨'/' :: '/' :: ignored, rfl, by simp, ?_⟩
    cases inComment
    · exact hignored
    · exact (Ignored.comment_cons (c := '/') hignored (by decide)).comment_cons (by decide)
  | case4 line c text hfeed hnot ih =>
    obtain ⟨ignored, rfl, rfl, hignored⟩ := ih h
    refine ⟨c :: ignored, rfl, ?_, Ignored.comment_cons hignored hfeed⟩
    rw [List.count_cons_of_ne hfeed]
  | case5 line inComment c text hfeed hnot hcomment hblank ih =>
    obtain ⟨ignored, rfl, rfl, hignored⟩ := ih h
    refine ⟨c :: ignored, rfl, ?_, ?_⟩
    · rw [List.count_cons_of_ne hfeed]
    · rw [if_neg hcomment]
      exact .blank hblank hignored
  | case6 line inComment c text hfeed hnot hcomment hblank =>
    cases h
    refine ⟨[], rfl, by simp, ?_⟩
    rw [if_neg hcomment]
    exact .nil

/-- The scanner passes over as much as may be ignored. -/
theorem longest_of_skip (h : skip line false text = ⟨last, rest⟩) :
    ∃ ignored, Longest Ignored text ignored rest ∧ last = line + ignored.count '\n' := by
  obtain ⟨ignored, hsplit, hlast, hignored⟩ := ignored_of_skip h
  refine ⟨ignored, ⟨hsplit, hignored, ?_⟩, hlast⟩
  rintro other ⟨more, rfl⟩ hother
  obtain ⟨inComment, heq⟩ := hother.skip_append line false more
  have hlength := length_skip_le (line + other.count '\n') inComment more
  rw [← heq, h] at hlength
  have htotal := congrArg List.length hsplit
  simp only [List.length_append] at htotal hlength
  omega

theorem skip_of_longest {ignored : List Char} (h : Longest Ignored text ignored rest) (line : Int) :
    skip line false text = ⟨line + ignored.count '\n', rest⟩ := by
  cases hskip : skip line false text with
  | mk last behind =>
    obtain ⟨ignored', hlongest, rfl⟩ := longest_of_skip hskip
    obtain ⟨rfl, rfl⟩ := hlongest.unique h
    rfl

end Skipping

section Spans
variable {c : Char} {text span rest : List Char}
  {found : Except LexicalError.Cause (Kind × Option Atom)}

theorem Lexeme.exists_cons (h : Lexeme text found) : ∃ c front, text = c :: front := by
  cases h with
  | symbol hmem =>
    obtain ⟨c, front, rfl, -⟩ := span_symbol hmem
    exact ⟨c, front, rfl⟩
  | @keyword word kind hmem =>
    have hstart := (word_of_mem_keywords _ hmem).2.1
    cases hword : word.toList with
    | nil => simp [hword] at hstart
    | cons c front => exact ⟨c, front, rfl⟩
  | identifier => exact ⟨_, _, rfl⟩
  | string => exact ⟨_, _, rfl⟩
  | number hne | tooGreat hne =>
    obtain ⟨c, front, rfl⟩ := List.exists_cons_of_ne_nil hne
    unfold numeralText
    split <;> exact ⟨_, _, rfl⟩

/-- A text is one token only. -/
theorem Lexeme.found_unique {found' : Except LexicalError.Cause (Kind × Option Atom)}
    (h : Lexeme text found) (h' : Lexeme text found') : found = found' := by
  obtain ⟨c, front, rfl⟩ := h.exists_cons
  exact congrArg Span.found (h.span_eq.symm.trans h'.span_eq)

/-- A token that starts a text, taken apart. -/
theorem Lexeme.exists_front (h : Lexeme text found) (hbegins : text <+: c :: rest) :
    ∃ front, text = c :: front ∧ front <+: rest := by
  obtain ⟨d, front, rfl⟩ := h.exists_cons
  obtain ⟨rfl, hfront⟩ := List.cons_prefix_cons.mp hbegins
  exact ⟨front, rfl, hfront⟩

theorem longest_span (h : Lexeme (Lexer.span c rest).lexeme (Lexer.span c rest).found) :
    Longest IsLexeme (c :: rest) (Lexer.span c rest).lexeme (Lexer.span c rest).rest := by
  refine ⟨span_split c rest, ⟨_, h⟩, ?_⟩
  rintro other hbegins ⟨found, hother⟩
  obtain ⟨front, rfl, hfront⟩ := hother.exists_front hbegins
  exact (hother.prefix_span hfront).length_le

/-- The scanner finds what the grammar finds. -/
theorem finds_iff :
    Finds (c :: rest) span text found ↔ Lexer.span c rest = ⟨span, text, found⟩ := by
  constructor
  · intro h
    obtain hlexeme | ⟨rfl, hopen, hspan⟩ | ⟨hstray, hspan⟩ := span_lexeme c rest
    · cases h with
      | token hlongest h =>
        obtain ⟨hspan, hrest⟩ := (longest_span hlexeme).unique hlongest
        have hfound := hlexeme.found_unique (hspan ▸ h)
        exact Span.mk.injEq .. ▸ ⟨hspan, hrest, hfound⟩
      | unclosed hopen => exact string_of_not_mem hopen
      | stray _ hnone => exact absurd ⟨_, hlexeme⟩ (hnone _ (longest_span hlexeme).begins)
    · cases h with
      | token hlongest h =>
        obtain ⟨front, rfl, hfront⟩ := h.exists_front hlongest.begins
        exact absurd h (not_lexeme_of_unclosed hopen hfront)
      | unclosed => exact hspan
      | stray hquote => exact absurd rfl hquote
    · cases h with
      | token hlongest h =>
        obtain ⟨front, rfl, -⟩ := h.exists_front hlongest.begins
        exact absurd h hstray.not_lexeme
      | unclosed => exact absurd rfl hstray.quote
      | stray => exact hspan
  · intro heq
    obtain hlexeme | ⟨rfl, hopen, hspan⟩ | ⟨hstray, hspan⟩ := span_lexeme c rest
    · have hlongest := longest_span hlexeme
      rw [heq] at hlexeme hlongest
      exact .token hlongest hlexeme
    · cases heq.symm.trans hspan
      exact .unclosed hopen
    · cases heq.symm.trans hspan
      refine .stray hstray.quote ?_
      rintro text hbegins ⟨found, hlexeme⟩
      obtain ⟨front, rfl, -⟩ := hlexeme.exists_front hbegins
      exact hstray.not_lexeme hlexeme

theorem finds_span (c : Char) (rest : List Char) : Finds (c :: rest) (Lexer.span c rest).lexeme
    (Lexer.span c rest).rest (Lexer.span c rest).found :=
  finds_iff.mpr rfl

theorem Finds.exists_cons (h : Finds text span rest found) : ∃ c more, text = c :: more := by
  cases h with
  | token hlongest h =>
    obtain ⟨c, front, rfl⟩ := h.exists_cons
    exact ⟨c, front ++ rest, hlongest.split⟩
  | unclosed | stray => exact ⟨_, _, rfl⟩

end Spans

end Lox.Lexer

namespace Lox
open Lexer

/-- The first `count` answers of a stream that is asked for its next token over and over. -/
def TokenStream.delivered : Nat → TokenStream → List (Except LexicalError Token)
  | 0, _ => []
  | count + 1, s => s.head :: delivered count s.tail

namespace Lexer
variable {before text : List Char} {outcomes : List (Except LexicalError Token)}

/-- The stream of a text that stands behind another one. -/
def streamBehind (before text : List Char) : TokenStream :=
  ⟨(scan ⟨lastLine before, text⟩).1, (scan ⟨lastLine before, text⟩).2⟩

theorem lastLine_append (before text : List Char) :
    lastLine (before ++ text) = lastLine before + text.count '\n' := by
  simp [lastLine, Int.add_assoc]

theorem streamBehind_of_end {ignored : List Char} (h : Longest Ignored text ignored []) :
    streamBehind before text = ⟨[], lastLine (before ++ ignored)⟩ := by
  unfold streamBehind
  rw [scan_of_end (skip_of_longest h _), lastLine_append]

theorem longest_nil : Longest Ignored [] [] [] :=
  ⟨rfl, .nil, fun _ hbegins _ => hbegins.length_le⟩

theorem streamBehind_of_find {ignored behind span rest : List Char}
    {found : Except LexicalError.Cause (Kind × Option Atom)}
    (hskip : Longest Ignored text ignored behind) (hfind : Finds behind span rest found) :
    streamBehind before text =
      ⟨Span.outcome ⟨span, rest, found⟩ (lastLine (before ++ ignored ++ span)) ::
          (streamBehind (before ++ ignored ++ span) rest).pending,
        (streamBehind (before ++ ignored ++ span) rest).lastLine⟩ := by
  obtain ⟨c, more, rfl⟩ := hfind.exists_cons
  unfold streamBehind
  rw [scan_of_token (skip_of_longest hskip _), finds_iff.mp hfind, lastLine_append,
    lastLine_append]

/-- The grammar gives what the scanner delivers. -/
theorem Munches.eq_delivered (h : Munches before text outcomes) :
    outcomes = (streamBehind before text).delivered outcomes.length := by
  induction h with
  | stop => rfl
  | ended hskip later ih =>
    rw [streamBehind_of_end longest_nil, List.append_nil] at ih
    rw [streamBehind_of_end hskip, List.length_cons, TokenStream.delivered, TokenStream.tail_nil,
      ← ih]
    rfl
  | next hskip hfind later ih =>
    rw [streamBehind_of_find hskip hfind, List.length_cons, TokenStream.delivered,
      TokenStream.tail_cons, ← ih]
    rfl

/-- What the scanner delivers is what the grammar gives. -/
theorem munches_delivered (before text : List Char) (count : Nat) :
    Munches before text ((streamBehind before text).delivered count) := by
  induction count generalizing before text with
  | zero => exact .stop
  | succ count ih =>
    cases hskip : skip 1 false text with
    | mk last behind =>
      obtain ⟨ignored, hlongest, -⟩ := longest_of_skip hskip
      cases behind with
      | nil =>
        have hlater := ih (before ++ ignored) []
        rw [streamBehind_of_end longest_nil, List.append_nil] at hlater
        rw [streamBehind_of_end hlongest, TokenStream.delivered, TokenStream.tail_nil]
        exact .ended hlongest hlater
      | cons c rest =>
        rw [streamBehind_of_find hlongest (finds_span c rest), TokenStream.delivered,
          TokenStream.tail_cons]
        exact .next hlongest (finds_span c rest) (ih _ _)

/-- What is ignored, and the characters of the tokens and errors, in the order of the text. -/
structure Pieces (text : List Char) (outcomes : List (Except LexicalError Token))
    (pieces : List (List Char × List Char)) (last : List Char) : Prop where
  joined : text = (pieces.flatMap fun piece => piece.1 ++ piece.2) ++ last
  ignored : Ignored last ∧ ∀ piece ∈ pieces, Ignored piece.1
  taken : ∀ piece ∈ pieces, piece.2 ≠ []
  lexemes : List.Forall₂ (fun (piece : List Char × List Char) outcome =>
    ∀ token, outcome = Except.ok token → token.lexeme = String.ofList piece.2) pieces outcomes

theorem exists_pieces (before text : List Char) :
    ∃ pieces last, Pieces text (streamBehind before text).pending pieces last := by
  induction hlength : text.length using Nat.strong_induction_on generalizing before text with
  | _ length ih =>
    cases hskip : skip 1 false text with
    | mk last behind =>
      obtain ⟨ignored, hlongest, -⟩ := longest_of_skip hskip
      cases behind with
      | nil =>
        rw [streamBehind_of_end hlongest]
        exact ⟨[], ignored, by simpa using hlongest.split, ⟨hlongest.holds, nofun⟩, nofun, .nil⟩
      | cons c rest =>
        obtain ⟨more, hlexeme, -⟩ := exists_lexeme_cons c rest
        obtain ⟨pieces, last, hpieces⟩ := ih (Lexer.span c rest).rest.length
          (hlength ▸ length_span_lt hskip) (before ++ ignored ++ (Lexer.span c rest).lexeme)
          (Lexer.span c rest).rest rfl
        rw [streamBehind_of_find hlongest (finds_span c rest)]
        refine ⟨(ignored, (Lexer.span c rest).lexeme) :: pieces, last, ?_, ⟨hpieces.ignored.1, ?_⟩,
          ?_, .cons ?_ hpieces.lexemes⟩
        · rw [List.flatMap_cons, List.append_assoc, ← hpieces.joined]
          simp only
          rw [List.append_assoc, ← span_split]
          exact hlongest.split
        · exact List.forall_mem_cons.mpr ⟨hlongest.holds, hpieces.ignored.2⟩
        · exact List.forall_mem_cons.mpr ⟨by simp [hlexeme], hpieces.taken⟩
        · intro token htoken
          unfold Span.outcome at htoken
          split at htoken
          · cases htoken
          · cases htoken
            rfl

end Lexer

/-- The scanner is maximal munch over its lexical grammar: however often it is asked for a token, it
answers what reading by the grammar gives. So what is ignored and what is taken make up the text, and
something is taken for every answer before the end. -/
theorem TokenStream.maximal_munch (text : String) :
    (∀ outcomes, Munches [] text.toList outcomes ↔
        outcomes = (ofText text).delivered outcomes.length) ∧
      ∃ pieces last, Pieces text.toList (ofText text).pending pieces last := by
  have hstream : ofText text = streamBehind [] text.toList := rfl
  rw [hstream]
  exact ⟨fun outcomes => ⟨Munches.eq_delivered, fun h => h ▸ munches_delivered [] _ _⟩,
    exists_pieces [] _⟩

end Lox
