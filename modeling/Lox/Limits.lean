/-!
# Limits

Trees are walked to a bounded depth, and how deep depends on what is done with them. A program that
goes deeper gets an error; no answer to a program that stays below depends on the bounds.
-/
namespace Lox

/-- The depths to which trees are walked, and how often a loop may go round. -/
structure Limits where
  /-- The depth of the grammar. A statement in a statement, an operand of a unary operator and an
  assigned value count once, an expression in parentheses or among arguments nine times. -/
  nesting : Nat
  /-- The depth of trees whose names are resolved. -/
  scoping : Nat
  /-- The depth of execution, in which a call adds the depth of what it executes. -/
  execution : Nat
  /-- The height of trees that are written out. -/
  writing : Nat
  /-- The number of rounds of one loop after which a run is given up without an answer. -/
  rounds : Nat

/-- The limits of the command line. A loop of so many rounds takes years. -/
def Limits.standard : Limits :=
  ⟨500, 990, 490, 490, 1000000000000000⟩

end Lox
