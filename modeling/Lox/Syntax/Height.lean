import Lox.Syntax.Basic

/-!
# Heights of trees

The number of nodes on the longest way down a tree, which decides whether it is written out.
-/
namespace Lox

mutual

/-- The height of an expression. -/
def Expr.height {σ : Type} : Expr σ → Nat
  | .literal _ => 1
  | .grouping inner => inner.height + 1
  | .unary _ operand => operand.height + 1
  | .binary left _ right => max left.height right.height + 1
  | .logical left _ right => max left.height right.height + 1
  | .variable _ _ => 1
  | .assignment _ _ value => value.height + 1
  | .call callee _ arguments => max callee.height (Expr.heights arguments) + 1
  | .foreign _ => 1

/-- The greatest height among expressions. -/
def Expr.heights {σ : Type} : List (Expr σ) → Nat
  | [] => 0
  | e :: es => max e.height (Expr.heights es)

end

mutual

/-- The height of a statement. -/
def Stmt.height {σ : Type} : Stmt σ → Nat
  | .expression value => value.height + 1
  | .print value => value.height + 1
  | .assert _ condition => condition.height + 1
  | .variable _ none => 1
  | .variable _ (some initializer) => initializer.height + 1
  | .block _ body => Stmt.heights body + 1
  | .conditional condition yes none => max condition.height yes.height + 1
  | .conditional condition yes (some no) => max condition.height (max yes.height no.height) + 1
  | .loop condition body => max condition.height body.height + 1
  | .function _ _ _ body => Stmt.heights body + 1
  | .return _ none => 1
  | .return _ (some value) => value.height + 1
  | .endMarker => 1
  | .foreign _ => 1

/-- The greatest height among statements. -/
def Stmt.heights {σ : Type} : List (Stmt σ) → Nat
  | [] => 0
  | s :: ss => max s.height (Stmt.heights ss)

end

theorem Expr.height_pos {σ : Type} (e : Expr σ) : 0 < e.height := by
  cases e <;> exact Nat.succ_pos _

theorem Stmt.height_pos {σ : Type} (s : Stmt σ) : 0 < s.height := by
  cases s with
  | «variable» _ initializer => cases initializer <;> exact Nat.succ_pos _
  | conditional _ _ no => cases no <;> exact Nat.succ_pos _
  | «return» _ value => cases value <;> exact Nat.succ_pos _
  | _ => exact Nat.succ_pos _

end Lox
