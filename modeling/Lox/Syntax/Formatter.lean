import Lox.Syntax.Height

/-!
# Trees as program text

A tree is written as the program text that reads back as the same tree: one statement a line, the
statements of a block one tab further in, single blanks around binary operators and behind keywords,
and `else` on the line where the branch before it ends. Parentheses are those of the tree.
-/
namespace Lox

mutual

/-- The program text of an expression. Arguments are written before what is called with them, which
shows only when both are at fault. -/
def Expr.source {σ : Type} : Expr σ → Except Fault String
  | .literal value => return value.source
  | .grouping inner => return "(" ++ (← inner.source) ++ ")"
  | .unary operator operand => return operator.lexeme ++ (← operand.source)
  | .binary left operator right =>
    return (← left.source) ++ " " ++ operator.lexeme ++ " " ++ (← right.source)
  | .logical left operator right =>
    return (← left.source) ++ " " ++ operator.lexeme ++ " " ++ (← right.source)
  | .variable _ name => return name.lexeme
  | .assignment _ name value => return name.lexeme ++ " = " ++ (← value.source)
  | .call callee _ arguments => do
    let arguments ← Expr.sources arguments
    return (← callee.source) ++ "(" ++ ", ".intercalate arguments ++ ")"
  | .foreign what => throw (.unknownExpression what)

/-- The program texts of expressions. -/
def Expr.sources {σ : Type} : List (Expr σ) → Except Fault (List String)
  | [] => return []
  | e :: es => return (← e.source) :: (← Expr.sources es)

end

/-- The blank space before a line that is `depth` blocks deep. -/
def indentation (depth : Nat) : String :=
  String.ofList (List.replicate depth '\t')

/-- The braces around the lines of a block that is itself `depth` blocks deep. -/
def braced (depth : Nat) : List String → String
  | [] => "\x7b\x7d"
  | lines => "\x7b\n" ++ "\n".intercalate lines ++ "\n" ++ indentation depth ++ "\x7d"

mutual

/-- The program text of a statement `depth` blocks deep, from its first character on. The end of
the input is no statement that could be written. -/
def Stmt.source {σ : Type} (depth : Nat) : Stmt σ → Except Fault String
  | .expression value => return (← value.source) ++ ";"
  | .print value => return "print " ++ (← value.source) ++ ";"
  | .assert _ condition => return "assert " ++ (← condition.source) ++ ";"
  | .variable name none => return "var " ++ name.lexeme ++ ";"
  | .variable name (some initializer) =>
    return "var " ++ name.lexeme ++ " = " ++ (← initializer.source) ++ ";"
  | .block _ body => return braced depth (← Stmt.lines (depth + 1) body)
  | .conditional condition yes none =>
    return "if (" ++ (← condition.source) ++ ") " ++ (← yes.source depth)
  | .conditional condition yes (some no) =>
    return "if (" ++ (← condition.source) ++ ") " ++ (← yes.source depth) ++
      " else " ++ (← no.source depth)
  | .loop condition body =>
    return "while (" ++ (← condition.source) ++ ") " ++ (← body.source depth)
  | .function _ name params body =>
    return "fun " ++ name.lexeme ++ "(" ++ ", ".intercalate (params.map (·.lexeme)) ++ ") " ++
      braced depth (← Stmt.lines (depth + 1) body)
  | .return _ none => return "return;"
  | .return _ (some value) => return "return " ++ (← value.source) ++ ";"
  | .endMarker => throw (.unknownStatement .endMarker)
  | .foreign what => throw (.unknownStatement what)

/-- The lines of statements `depth` blocks deep. The end of the input leaves its line empty. -/
def Stmt.lines {σ : Type} (depth : Nat) : List (Stmt σ) → Except Fault (List String)
  | [] => return []
  | .endMarker :: ss => return "" :: (← Stmt.lines depth ss)
  | s :: ss => return (indentation depth ++ (← s.source depth)) :: (← Stmt.lines depth ss)

end

/-- The program text of a statement that stands by itself, unless it is too high. -/
def Stmt.format {σ : Type} (limit : Nat) (s : Stmt σ) : Except Fault String :=
  match s with
  | .endMarker => .ok ""
  | s => if s.height ≤ limit then s.source 0 else .error .tooHigh

/-- The program text of statements, one line after the other; the end of the input has none. -/
def Stmt.formatProgram {σ : Type} (limit : Nat) (ss : List (Stmt σ)) : Except Fault String := do
  let texts ← ss.mapM (Stmt.format limit)
  return "\n".intercalate (texts.filter (· ≠ ""))

end Lox
