import Lox.Proofs.Grammar.Reading

/-!
# Nesting

How deep the reader of a derivation has to go down. Whatever stands in parentheses or among
arguments is eight levels of operators below, so that a limit on the depth bounds the nesting.
A reader that meets a derivation either reads it or finds that it is nested too deep.
-/
namespace Lox.Grammar
open Outcome Lox.Parser

mutual

/-- An expression is nested at most so deep. -/
def Expression.Fits : Expression → Nat → Prop
  | .assignment _ _ value, depth + 1 => 8 ≤ depth ∧ value.Fits depth
  | .operation operation, depth + 1 => operation.Fits depth
  | _, 0 => False

/-- Operators and operands are nested at most so deep. -/
def Operation.Fits : {tighter : List Level} → Operation tighter → Nat → Prop
  | _, .unary operand, depth => operand.Fits depth
  | _, .chain first rest, depth => first.Fits depth ∧ rest.Fits depth

/-- Operators and operands behind the first one are nested at most so deep. -/
def Operands.Fits : {level : Level} → {tighter : List Level} → Operands level tighter → Nat → Prop
  | _, _, .none, _ => True
  | _, _, .more _ operand rest, depth => operand.Fits depth ∧ rest.Fits depth

/-- A unary expression is nested at most so deep. -/
def Unary.Fits : Unary → Nat → Prop
  | .operator _ operand, depth => 8 ≤ depth ∧ operand.Fits (depth - 1)
  | .call callee calls, depth => 8 ≤ depth ∧ callee.Fits (depth - 8) ∧ calls.Fits (depth - 8)

/-- The arguments of calls are nested at most so deep. -/
def Calls.Fits : Calls → Nat → Prop
  | .none, _ => True
  | .more _ arguments _ rest, depth => arguments.Fits depth ∧ rest.Fits depth

/-- Arguments are nested at most so deep. -/
def Arguments.Fits : Arguments → Nat → Prop
  | .none, _ => True
  | .some first rest, depth => first.Fits depth ∧ rest.Fits depth

/-- Arguments behind the first one are nested at most so deep. -/
def MoreArguments.Fits : MoreArguments → Nat → Prop
  | .none, _ => True
  | .more _ argument rest, depth => argument.Fits depth ∧ rest.Fits depth

/-- A primary expression is nested at most so deep. -/
def Primary.Fits : Primary → Nat → Prop
  | .group _ inner _, depth => inner.Fits depth
  | _, _ => True

end

mutual

/-- A statement is nested at most so deep. -/
def Statement.Fits : Statement → Nat → Prop
  | _, 0 => False
  | .initialized _ _ _ initializer _, depth + 1 => initializer.Fits depth
  | .function _ _ _ _ _ _ body _, depth + 1 => body.Fits depth
  | .block _ body _, depth + 1 => body.Fits depth
  | .conditional _ _ condition _ yes, depth + 1 => condition.Fits depth ∧ yes.Fits depth
  | .alternative _ _ condition _ yes _ no, depth + 1 =>
    condition.Fits depth ∧ yes.Fits depth ∧ no.Fits depth
  | .loop _ _ condition _ body, depth + 1 => condition.Fits depth ∧ body.Fits depth
  | .print _ value _, depth + 1 => value.Fits depth
  | .assert _ condition _, depth + 1 => condition.Fits depth
  | .returning _ value _, depth + 1 => value.Fits depth
  | .expression value _, depth + 1 => value.Fits depth
  | _, _ + 1 => True

/-- Statements are nested at most so deep. -/
def Statements.Fits : Statements → Nat → Prop
  | .none, _ => True
  | .more first rest, depth => first.Fits depth ∧ rest.Fits depth

end

/-- A reader gives `a` and stops at `s'` if what it reads fits, and otherwise fails because the
nesting is too deep. -/
def Reads {α : Type} (fits : Prop) (p : Parser α) (s : TokenStream) (a : α) (s' : TokenStream) :
    Prop :=
  fits ∧ p s = .ok a s' ∨ ¬fits ∧ ∃ line t, p s = .error (.syntactic ⟨.tooDeep, line⟩) t

namespace Reads
variable {α β : Type} {f g : Prop} {p : Parser α} {k : α → Parser β} {s t u : TokenStream} {a : α}
  {b : β}

theorem of_ok (h : p s = .ok a t) : Reads True p s a t := .inl ⟨trivial, h⟩

theorem tooDeep (h : ¬f) : Reads f Parser.tooDeep s a t := .inr ⟨h, _, _, rfl⟩

theorem congr (h : Reads f p s a t) (hiff : f ↔ g) : Reads g p s a t := by
  rwa [← propext hiff]

/-- One reader behind another. -/
theorem bind (h : Reads f p s a t) (h' : Reads g (k a) t b u) : Reads (f ∧ g) (p >>= k) s b u := by
  rcases h with ⟨hf, hp⟩ | ⟨hf, line, t', hp⟩
  · rcases h' with ⟨hg, hk⟩ | ⟨hg, line, t', hk⟩
    · exact .inl ⟨⟨hf, hg⟩, by rw [bind_of_ok hp, hk]⟩
    · exact .inr ⟨fun hfg => hg hfg.2, line, t', by rw [bind_of_ok hp, hk]⟩
  · exact .inr ⟨fun hfg => hf hfg.1, line, t', bind_of_error hp k⟩

/-- A step that does not depend on the nesting, and a reader behind it. -/
theorem after (h : p s = .ok a t) (h' : Reads g (k a) t b u) : Reads g (p >>= k) s b u :=
  ((of_ok h).bind h').congr (by simp)

/-- A reader, and a step that does not depend on the nesting behind it. -/
theorem ended (h : Reads f p s a t) (h' : k a t = .ok b u) : Reads f (p >>= k) s b u :=
  (h.bind (of_ok h')).congr (by simp)

theorem map (h : Reads f p s a t) (g : α → β) : Reads f (g <$> p) s (g a) t := by
  rcases h with ⟨hf, hp⟩ | ⟨hf, line, t', hp⟩
  · exact .inl ⟨hf, by rw [map_apply, hp]⟩
  · exact .inr ⟨hf, line, t', by rw [map_apply, hp]⟩

/-- A round that adds something, and the rounds behind it. -/
theorem round {step : α → Parser (Option α)} {fuel : Nat} {first next last : α}
    (h : Reads f (step first) s (some next) t) (h' : Reads g (repeatUpTo step fuel next) t last u) :
    Reads (f ∧ g) (repeatUpTo step (fuel + 1) first) s last u :=
  h.bind h'

/-- Rounds that add nothing. -/
theorem rounds_end {step : α → Parser (Option α)} {last : α} (h : step last s = .ok none s)
    (fuel : Nat) : Reads True (repeatUpTo step fuel last) s last s := by
  cases fuel with
  | zero => exact of_ok rfl
  | succ fuel => exact after h (of_ok rfl)

end Reads

end Lox.Grammar
