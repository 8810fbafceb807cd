import Lox.Proofs.Grammar.Joining
import Lox.Proofs.Token.MaximalMunch

/-!
# Tokens with positions

Many tokens may end on one line. Each of them ends at a position of its own, the number of
characters up to its end, and if the tokens of a text are given their positions in the place of
lines, then a report names the token that is blamed. The lines are found again by counting the line
feeds before the positions.
-/
namespace Lox
open Lexer

namespace Lexer
variable {before text : List Char} {length fuel : Nat}

/-- The tokens and errors of a text at the end of one with `length` characters, each with its
position in the place of its line. -/
def positions (length : Nat) : Nat → List Char → List (Except LexicalError Token)
  | 0, _ => []
  | fuel + 1, text =>
    match (skip 0 false text).rest with
    | [] => []
    | c :: rest =>
      (span c rest).outcome (length - (span c rest).rest.length : Nat) ::
        positions length fuel (span c rest).rest

/-- The line that a position is on. -/
def lineAt (text : List Char) (position : Int) : Int :=
  lastLine (text.take position.toNat)

/-- At the first position of a text there is its first token or error, behind what is ignored. -/
theorem positions_cases (before text : List Char) (fuel : Nat) :
    (positions (before ++ text).length (fuel + 1) text = [] ∧ Longest Ignored text text []) ∨
    ∃ ignored c rest, Longest Ignored text ignored (c :: rest) ∧
      (span c rest).rest.length < text.length ∧
      before ++ text = before ++ ignored ++ (span c rest).lexeme ++ (span c rest).rest ∧
      positions (before ++ text).length (fuel + 1) text =
        (span c rest).outcome (before ++ ignored ++ (span c rest).lexeme).length ::
          positions (before ++ text).length fuel (span c rest).rest := by
  cases hskip : skip 0 false text with
  | mk last behind =>
    obtain ⟨ignored, hlongest, -⟩ := longest_of_skip hskip
    cases behind with
    | nil =>
      have htext : text = ignored := by simpa using hlongest.split
      refine .inl ⟨?_, by rwa [← htext] at hlongest⟩
      rw [positions, hskip]
    | cons c rest =>
      have hsplit : before ++ text =
          before ++ ignored ++ (span c rest).lexeme ++ (span c rest).rest := by
        rw [List.append_assoc _ _ (span c rest).rest, ← span_split, List.append_assoc,
          ← hlongest.split]
      have hlength : (before ++ text).length - (span c rest).rest.length =
          (before ++ ignored ++ (span c rest).lexeme).length := by
        rw [hsplit, List.length_append, Nat.add_sub_cancel]
      refine .inr ⟨ignored, c, rest, hlongest, length_span_lt hskip, hsplit, ?_⟩
      rw [positions, hskip, ← hlength]

theorem lineAt_length (before rest : List Char) :
    lineAt (before ++ rest) before.length = lastLine before := by
  rw [lineAt, Int.toNat_natCast, List.take_left]

theorem Span.reline_outcome (line : Int → Int) (s : Span) (position : Int) :
    relineHead line (s.outcome position) = s.outcome (line position) := by
  unfold Span.outcome
  cases s.found <;> rfl

/-- On the lines of their positions the tokens are the tokens of the text. -/
theorem reline_positions (before : List Char) (hfuel : text.length < fuel) :
    TokenStream.reline (lineAt (before ++ text))
      ⟨positions (before ++ text).length fuel text, (before ++ text).length⟩ =
      streamBehind before text := by
  induction fuel generalizing before text with
  | zero => exact absurd hfuel (Nat.not_lt_zero _)
  | succ fuel ih =>
    obtain ⟨hnil, hlongest⟩ | ⟨ignored, c, rest, hlongest, hless, hsplit, hcons⟩ :=
      positions_cases before text fuel
    · have hend := lineAt_length (before ++ text) []
      rw [List.append_nil] at hend
      rw [streamBehind_of_end hlongest, TokenStream.reline, hnil, hend]
      rfl
    · have hfuel' : (span c rest).rest.length < fuel := by omega
      have hrest := ih (before ++ ignored ++ (span c rest).lexeme) hfuel'
      have hline := lineAt_length (before ++ ignored ++ (span c rest).lexeme) (span c rest).rest
      rw [← hsplit] at hrest hline
      rw [streamBehind_of_find hlongest (finds_span c rest), ← hrest, TokenStream.reline, hcons,
        List.map_cons, Span.reline_outcome, hline]
      rfl

/-- A token stands before its position. -/
theorem suffix_of_mem_positions (before : List Char) (hfuel : text.length < fuel) {token : Token}
    (h : .ok token ∈ positions (before ++ text).length fuel text) :
    token.lexeme.toList <:+ (before ++ text).take token.line.toNat := by
  induction fuel generalizing before text with
  | zero => exact absurd hfuel (Nat.not_lt_zero _)
  | succ fuel ih =>
    obtain ⟨hnil, -⟩ | ⟨ignored, c, rest, -, hless, hsplit, hcons⟩ :=
      positions_cases before text fuel
    · rw [hnil] at h
      cases h
    · rw [hcons] at h
      rcases List.mem_cons.mp h with hfirst | hlater
      · unfold Span.outcome at hfirst
        split at hfirst
        · cases hfirst
        · cases hfirst
          rw [hsplit, Int.toNat_natCast, List.take_left, String.toList_ofList]
          exact List.suffix_append _ _
      · rw [hsplit] at hlater ⊢
        exact ih _ (by omega) hlater

end Lexer

namespace TokenStream
variable {text : String}

/-- The stream of a text in which positions stand in the place of lines. -/
def positioned (text : String) : TokenStream :=
  ⟨positions text.toList.length (text.toList.length + 1) text.toList, text.toList.length⟩

theorem reline_positioned (text : String) :
    (positioned text).reline (lineAt text.toList) = ofText text :=
  Lexer.reline_positions [] (Nat.lt_succ_self _)

theorem genuine_positioned (text : String) : (positioned text).Genuine := by
  intro token htoken
  have hmem : .ok (token.reline (lineAt text.toList)) ∈ (ofText text).pending := by
    rw [← reline_positioned]
    exact List.mem_map.mpr ⟨_, htoken, rfl⟩
  exact genuine_ofText text (token.reline (lineAt text.toList)) hmem

/-- Something of a text ends at a position: a token, an error, or the text itself. -/
inductive EndsAt (text : String) : Int → Prop where
  | token {t : Token} (h : .ok t ∈ (positioned text).pending)
    (hlexeme : t.lexeme.toList <:+ text.toList.take t.line.toNat) : EndsAt text t.line
  | error {e : LexicalError} (h : .error e ∈ (positioned text).pending) : EndsAt text e.line
  | text : EndsAt text text.toList.length

theorem suffix_of_mem_positioned {token : Token} (h : .ok token ∈ (positioned text).pending) :
    token.lexeme.toList <:+ text.toList.take token.line.toNat :=
  Lexer.suffix_of_mem_positions [] (Nat.lt_succ_self _) h

end TokenStream

end Lox
