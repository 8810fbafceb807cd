import Lox.Syntax.Height

/-!
# Trees in prefix form

A tree is written with every operator before its operands and parentheses around each node, so that
`1 + 2 + 3` becomes `(+ (+ 1 2) 3)`. The form shows grouping and associativity and leaves out lines.
-/
namespace Lox

/-- A head and its parts in parentheses. Empty parts are left out. -/
def parenthesized (head : String) (parts : List String) : String :=
  "(" ++ " ".intercalate (head :: parts.filter (· ≠ "")) ++ ")"

/-- A literal in a tree. -/
def Atom.printed : Atom → String
  | .string value => "\"" ++ value ++ "\""
  | value => value.shown

mutual

/-- An expression in prefix form. -/
def Expr.printed {σ : Type} : Expr σ → Except Fault String
  | .literal value => return value.printed
  | .grouping inner => return parenthesized "group" [← inner.printed]
  | .unary operator operand => return parenthesized operator.lexeme [← operand.printed]
  | .binary left operator right =>
    return parenthesized operator.lexeme [← left.printed, ← right.printed]
  | .logical left operator right =>
    return parenthesized operator.lexeme [← left.printed, ← right.printed]
  | .variable _ name => return name.lexeme
  | .assignment _ name value => return parenthesized "=" [name.lexeme, ← value.printed]
  | .call callee _ arguments =>
    return parenthesized "call" ((← callee.printed) :: (← Expr.printedAll arguments))
  | .foreign what => throw (.unknownExpression what)

/-- Expressions in prefix form. -/
def Expr.printedAll {σ : Type} : List (Expr σ) → Except Fault (List String)
  | [] => return []
  | e :: es => return (← e.printed) :: (← Expr.printedAll es)

end

mutual

/-- A statement in prefix form. The branch behind `else` is written first, which shows only when
both branches are at fault. -/
def Stmt.printed {σ : Type} : Stmt σ → Except Fault String
  | .expression value => return parenthesized ";" [← value.printed]
  | .print value => return parenthesized "print" [← value.printed]
  | .assert _ condition => return parenthesized "assert" [← condition.printed]
  | .variable name none => return parenthesized "var" [name.lexeme]
  | .variable name (some initializer) =>
    return parenthesized "var" [name.lexeme, ← initializer.printed]
  | .block _ body => return parenthesized "block" (← Stmt.printedAll body)
  | .conditional condition yes none =>
    return parenthesized "if" [← condition.printed, ← yes.printed]
  | .conditional condition yes (some no) => do
    let no ← no.printed
    return parenthesized "if" [← condition.printed, ← yes.printed, no]
  | .loop condition body => return parenthesized "while" [← condition.printed, ← body.printed]
  | .function _ name params body =>
    let params := "(" ++ " ".intercalate (params.map (·.lexeme)) ++ ")"
    return parenthesized "fun" (name.lexeme :: params :: (← Stmt.printedAll body))
  | .return _ none => return parenthesized "return" []
  | .return _ (some value) => return parenthesized "return" [← value.printed]
  | .endMarker => return "(end)"
  | .foreign what => throw (.unknownStatement what)

/-- Statements in prefix form. -/
def Stmt.printedAll {σ : Type} : List (Stmt σ) → Except Fault (List String)
  | [] => return []
  | s :: ss => return (← s.printed) :: (← Stmt.printedAll ss)

end

/-- A statement in prefix form, unless it is too high. -/
def Stmt.print? {σ : Type} (limit : Nat) (s : Stmt σ) : Except Fault String :=
  if s.height ≤ limit then s.printed else .error .tooHigh

end Lox
