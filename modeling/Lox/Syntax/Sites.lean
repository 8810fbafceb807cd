import Lox.Syntax.Basic

/-!
# Numbering the sites of a tree

A tree that has been read gets numbers for its references, blocks and functions, in the order of the
text, beginning with the first number that is not in use. Equal references in different places
thereby stay apart.
-/
namespace Lox

/-- The number of a reference, block or function. -/
abbrev Site := Nat

/-- The next unused number. -/
def freshSite : StateM Site Site :=
  modifyGet fun next => (next, next + 1)

mutual

/-- An expression with numbered sites. -/
def Expr.number {σ : Type} : Expr σ → StateM Site (Expr Site)
  | .literal value => pure (.literal value)
  | .grouping inner => do return .grouping (← inner.number)
  | .unary operator operand => do return .unary operator (← operand.number)
  | .binary left operator right => do return .binary (← left.number) operator (← right.number)
  | .logical left operator right => do return .logical (← left.number) operator (← right.number)
  | .variable _ name => do return .variable (← freshSite) name
  | .assignment _ name value => do return .assignment (← freshSite) name (← value.number)
  | .call callee paren arguments => do
    return .call (← callee.number) paren (← Expr.numberAll arguments)
  | .foreign what => pure (.foreign what)

/-- Expressions with numbered sites. -/
def Expr.numberAll {σ : Type} : List (Expr σ) → StateM Site (List (Expr Site))
  | [] => pure []
  | e :: es => do return (← e.number) :: (← Expr.numberAll es)

end

mutual

/-- A statement with numbered sites. -/
def Stmt.number {σ : Type} : Stmt σ → StateM Site (Stmt Site)
  | .expression value => do return .expression (← value.number)
  | .print value => do return .print (← value.number)
  | .assert keyword condition => do return .assert keyword (← condition.number)
  | .variable name none => pure (.variable name none)
  | .variable name (some initializer) => do return .variable name (some (← initializer.number))
  | .block _ body => do return .block (← freshSite) (← Stmt.numberAll body)
  | .conditional condition yes none => do
    return .conditional (← condition.number) (← yes.number) none
  | .conditional condition yes (some no) => do
    return .conditional (← condition.number) (← yes.number) (some (← no.number))
  | .loop condition body => do return .loop (← condition.number) (← body.number)
  | .function _ name params body => do
    return .function (← freshSite) name params (← Stmt.numberAll body)
  | .return keyword none => pure (.return keyword none)
  | .return keyword (some value) => do return .return keyword (some (← value.number))
  | .endMarker => pure .endMarker
  | .foreign what => pure (.foreign what)

/-- Statements with numbered sites. -/
def Stmt.numberAll {σ : Type} : List (Stmt σ) → StateM Site (List (Stmt Site))
  | [] => pure []
  | s :: ss => do return (← s.number) :: (← Stmt.numberAll ss)

end

end Lox
