import Lox.Syntax.Basic

/-!
# Trees in listings

A tree is written out with the name of each node and of each of its parts. Messages name a node in
this form when it stands in a place where only nodes of the other family belong.
-/
namespace Lox

/-- A node with its parts. -/
def listedNode (name : String) (parts : List (String × String)) : String :=
  name ++ "(" ++ ", ".intercalate (parts.map fun part => part.1 ++ "=" ++ part.2) ++ ")"

/-- Several parts as one. -/
def listedParts (parts : List String) : String :=
  "[" ++ ", ".intercalate parts ++ "]"

/-- What is written for a part that a node does not have. -/
def absentPart : String := Atom.nil.describe

/-- A token as a part of a node. -/
def Token.listed (t : Token) : String :=
  listedNode "Token"
    [("kind", t.kind.describe), ("lexeme", Text.quoted t.lexeme),
      ("literal", (t.literal.map Atom.describe).getD absentPart), ("line", toString t.line)]

mutual

/-- An expression in listings. -/
def Expr.listed {σ : Type} : Expr σ → String
  | .literal value => (Foreign.literal value).describe
  | .grouping inner => listedNode "Grouping" [("expression", inner.listed)]
  | .unary operator operand =>
    listedNode "Unary" [("operator", operator.listed), ("right", operand.listed)]
  | .binary left operator right =>
    listedNode "Binary"
      [("left", left.listed), ("operator", operator.listed), ("right", right.listed)]
  | .logical left operator right =>
    listedNode "Logical"
      [("left", left.listed), ("operator", operator.listed), ("right", right.listed)]
  | .variable _ name => listedNode "Variable" [("name", name.listed)]
  | .assignment _ name value =>
    listedNode "Assignment" [("name", name.listed), ("value", value.listed)]
  | .call callee paren arguments =>
    listedNode "Call"
      [("callee", callee.listed), ("paren", paren.listed),
        ("arguments", listedParts (Expr.allListed arguments))]
  | .foreign what => what.describe

/-- Expressions in listings. -/
def Expr.allListed {σ : Type} : List (Expr σ) → List String
  | [] => []
  | e :: es => e.listed :: Expr.allListed es

end

mutual

/-- A statement in listings. -/
def Stmt.listed {σ : Type} : Stmt σ → String
  | .expression value => listedNode "ExpressionStmt" [("expression", value.listed)]
  | .print value => listedNode "PrintStmt" [("expression", value.listed)]
  | .assert keyword condition =>
    listedNode "AssertStmt" [("keyword", keyword.listed), ("expression", condition.listed)]
  | .variable name none =>
    listedNode "VarDecl" [("name", name.listed), ("initializer", absentPart)]
  | .variable name (some initializer) =>
    listedNode "VarDecl" [("name", name.listed), ("initializer", initializer.listed)]
  | .block _ body => listedNode "Block" [("statements", listedParts (Stmt.allListed body))]
  | .conditional condition yes none =>
    listedNode "If"
      [("condition", condition.listed), ("then_branch", yes.listed), ("else_branch", absentPart)]
  | .conditional condition yes (some no) =>
    listedNode "If"
      [("condition", condition.listed), ("then_branch", yes.listed), ("else_branch", no.listed)]
  | .loop condition body =>
    listedNode "While" [("condition", condition.listed), ("body", body.listed)]
  | .function _ name params body =>
    listedNode "FunctionDecl"
      [("name", name.listed), ("params", listedParts (params.map Token.listed)),
        ("body", listedParts (Stmt.allListed body))]
  | .return keyword none =>
    listedNode "Return" [("keyword", keyword.listed), ("value", absentPart)]
  | .return keyword (some value) =>
    listedNode "Return" [("keyword", keyword.listed), ("value", value.listed)]
  | .endMarker => Foreign.endMarker.describe
  | .foreign what => what.describe

/-- Statements in listings. -/
def Stmt.allListed {σ : Type} : List (Stmt σ) → List String
  | [] => []
  | s :: ss => s.listed :: Stmt.allListed ss

end

end Lox
