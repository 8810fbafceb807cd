import Lox.Proofs.Shell.Tokens

/-!
# Brackets that are left open

A closing brace or parenthesis closes the last opening one before it that is still open, if there is
one. A text leaves something open if it ends inside a string or has an opening one that is never
closed. The shell counts instead, so a closing one that closes nothing makes up for an opening one
behind it: a line that the shell continues leaves something open, but it does not continue every such
line.
-/
namespace Lox

/-- A brace or parenthesis: which of the two it is makes no difference. -/
inductive Bracket where
  | opening
  | closing
  deriving DecidableEq

def Kind.bracket? : Kind → Option Bracket
  | .leftParen | .leftBrace => some .opening
  | .rightParen | .rightBrace => some .closing
  | _ => none

/-- The bracket of what the scanner delivers, if it is a token that is one. -/
def bracketOf : Except LexicalError Token → Option Bracket
  | .ok token => token.kind.bracket?
  | .error _ => none

namespace TokenStream

/-- The braces and parentheses of a stream in their order, without those in strings and comments. -/
def brackets (s : TokenStream) : List Bracket :=
  s.pending.filterMap bracketOf

/-- The text of the stream ends inside a string. -/
def EndsInString (s : TokenStream) : Prop :=
  ∃ line, .error ⟨.unterminatedString, line⟩ ∈ s.pending

end TokenStream

namespace Bracket

/-- Brackets that are closed among themselves: each closing one closes the last one that is open. -/
inductive Balanced : List Bracket → Prop where
  | nil : Balanced []
  | pair {inner rest : List Bracket} (hinner : Balanced inner) (hrest : Balanced rest) :
    Balanced (.opening :: (inner ++ .closing :: rest))

/-- Some opening bracket is not closed: no closing one behind it is left to it by those between. -/
def LeftOpen (bs : List Bracket) : Prop :=
  ∃ front back, bs = front ++ .opening :: back ∧
    ∀ inner rest, back = inner ++ .closing :: rest → ¬Balanced inner

/-- A pair counts once on either side. -/
theorem count_pair (b : Bracket) (inner rest : List Bracket) :
    (Bracket.opening :: (inner ++ .closing :: rest)).count b = inner.count b + rest.count b + 1 := by
  cases b with
  | opening => rw [List.count_cons_self, List.count_append, List.count_cons_of_ne (by decide)]
  | closing =>
    rw [List.count_cons_of_ne (by decide), List.count_append, List.count_cons_self, Nat.add_assoc]

theorem Balanced.count_eq {bs : List Bracket} (h : Balanced bs) :
    bs.count .opening = bs.count .closing := by
  induction h with
  | nil => rfl
  | pair _ _ ihinner ihrest => rw [count_pair, count_pair, ihinner, ihrest]

/-- What is left open behind some brackets is left open behind more of them. -/
theorem LeftOpen.behind {bs : List Bracket} (h : LeftOpen bs) (before : List Bracket) :
    LeftOpen (before ++ bs) := by
  obtain ⟨front, back, rfl, hopen⟩ := h
  exact ⟨before ++ front, back, (List.append_assoc _ _ _).symm, hopen⟩

/-- Where every opening bracket is closed, there are enough closing ones. -/
theorem count_le_of_not_leftOpen {bs : List Bracket} (h : ¬LeftOpen bs) :
    bs.count .opening ≤ bs.count .closing := by
  induction hlength : bs.length using Nat.strong_induction_on generalizing bs with
  | _ length ih =>
    cases bs with
    | nil => exact Nat.le_refl _
    | cons b bs =>
      rw [List.length_cons] at hlength
      cases b with
      | closing =>
        have hrest := ih bs.length (by omega) (fun hbs => h (hbs.behind [.closing])) rfl
        rw [List.count_cons_of_ne (by decide), List.count_cons_self]
        exact Nat.le_succ_of_le hrest
      | opening =>
        -- The first bracket is closed, and what stands behind its partner is closed as well.
        have hclosed : ∃ inner rest, bs = inner ++ .closing :: rest ∧ Balanced inner := by
          by_contra hnone
          push Not at hnone
          exact h ⟨[], bs, rfl, hnone⟩
        obtain ⟨inner, rest, rfl, hinner⟩ := hclosed
        have hbefore : Bracket.opening :: (inner ++ .closing :: rest) =
            (Bracket.opening :: (inner ++ [.closing])) ++ rest := by simp
        rw [List.length_append, List.length_cons] at hlength
        have hrest := ih rest.length (by omega)
          (fun hopen => h (hbefore ▸ hopen.behind (.opening :: (inner ++ [.closing])))) rfl
        rw [count_pair, count_pair, hinner.count_eq]
        omega

end Bracket

namespace Shell

theorem balance_eq_bracket (kind : Kind) : kind.balance =
    (kind.bracket?.toList.count .opening : Int) - kind.bracket?.toList.count .closing := by
  cases kind <;> rfl

/-- What is open in the end is what has been opened less what has been closed. -/
theorem sum_outcomeBalance_eq_brackets (outcomes : List (Except LexicalError Token)) :
    (outcomes.map outcomeBalance).sum =
      ((outcomes.filterMap bracketOf).count .opening : Int) -
        (outcomes.filterMap bracketOf).count .closing := by
  induction outcomes with
  | nil => rfl
  | cons outcome outcomes ih =>
    have hfirst : outcomeBalance outcome = ((bracketOf outcome).toList.count .opening : Int) -
        (bracketOf outcome).toList.count .closing := by
      cases outcome with
      | error error => rfl
      | ok token => exact balance_eq_bracket token.kind
    have hsplit : (outcome :: outcomes).filterMap bracketOf =
        (bracketOf outcome).toList ++ outcomes.filterMap bracketOf := by
      cases hbracket : bracketOf outcome with
      | none => rw [List.filterMap_cons_none hbracket]; rfl
      | some b => rw [List.filterMap_cons_some hbracket]; rfl
    rw [List.map_cons, List.sum_cons, ih, hfirst, hsplit, List.count_append, List.count_append]
    push_cast
    ring

/-- The shell continues a text that ends in a string, or that opens more than it closes. -/
theorem checked_iff_count (text : String) :
    (checked text).2 = true ↔ (TokenStream.ofText text).EndsInString ∨
      (TokenStream.ofText text).brackets.count .closing <
        (TokenStream.ofText text).brackets.count .opening := by
  have hscan : (TokenStream.ofText text).pending = (Lexer.scan ⟨1, text.toList⟩).1 := rfl
  have hsum := sum_outcomeBalance_eq_brackets (TokenStream.ofText text).pending
  rw [checked, leavesOpen, leavesOpenFrom_iff 1, ← hscan, hsum]
  unfold TokenStream.EndsInString TokenStream.brackets
  refine or_congr_right ?_
  omega

/-- A text leaves something open: a string, or a brace or parenthesis. -/
def LeavesOpen (text : String) : Prop :=
  (TokenStream.ofText text).EndsInString ∨ Bracket.LeftOpen (TokenStream.ofText text).brackets

/-- The shell hands a text on as it is. It continues the text exactly if that leaves something open
and either ends inside a string or has more opening than closing braces and parentheses: those that
close nothing are counted as well. -/
theorem checked_iff_leavesOpen (text : String) :
    (checked text).1 = text ∧
      ((checked text).2 = true ↔ LeavesOpen text ∧ ((TokenStream.ofText text).EndsInString ∨
        (TokenStream.ofText text).brackets.count .closing <
          (TokenStream.ofText text).brackets.count .opening)) := by
  refine ⟨rfl, ?_⟩
  rw [checked_iff_count, and_iff_right_of_imp]
  refine Or.imp_right fun hmore => ?_
  by_contra hclosed
  exact Nat.not_le.mpr hmore (Bracket.count_le_of_not_leftOpen hclosed)

/-- A brace is opened behind one that closes nothing. It is left open, but the line is not continued. -/
theorem not_continued_of_closing : LeavesOpen "\x7d \x7b" ∧ (checked "\x7d \x7b").2 = false := by
  have hbrackets : (TokenStream.ofText "\x7d \x7b").brackets = [.closing, .opening] := by decide +kernel
  refine ⟨.inr ⟨[.closing], [], hbrackets, fun inner rest hsplit => ?_⟩, by decide +kernel⟩
  cases inner <;> cases hsplit

end Shell

end Lox
