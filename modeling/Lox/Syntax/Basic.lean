import Lox.Token.Basic

/-!
# Syntax trees

Expressions and statements. Every place of a tree to which something is attached later, a reference
to a name, a block or a function, carries a site of type `σ`: a tree as it is read has none
(`σ := Unit`), and a tree that is to be resolved and executed has numbers that are unique in the
session.
-/
namespace Lox

/-- Something that stands at the place of a node and belongs to neither family. -/
inductive Foreign where
  | text (content : String)
  | flag (value : Bool)
  | nothing
  | literal (value : Atom)
  | endMarker
  /-- Anything else, by its description. -/
  | other (description : String)

/-- How foreign things are named in messages. -/
def Foreign.describe : Foreign → String
  | text content => Text.quoted content
  | flag value => (Atom.bool value).describe
  | nothing => Atom.nil.describe
  | literal value => "Literal(value=" ++ value.describe ++ ")"
  | endMarker => "EndMarker()"
  | other description => description

/-- Expressions. -/
inductive Expr (σ : Type) where
  | literal (value : Atom)
  | grouping (inner : Expr σ)
  | unary (operator : Token) (operand : Expr σ)
  | binary (left : Expr σ) (operator : Token) (right : Expr σ)
  /-- Conjunctions and disjunctions, whose right operand is not always evaluated. -/
  | logical (left : Expr σ) (operator : Token) (right : Expr σ)
  | variable (site : σ) (name : Token)
  | assignment (site : σ) (name : Token) (value : Expr σ)
  /-- A call, with the parenthesis that closes it. -/
  | call (callee : Expr σ) (paren : Token) (arguments : List (Expr σ))
  | foreign (what : Foreign)

/-- Statements. -/
inductive Stmt (σ : Type) where
  | expression (value : Expr σ)
  | print (value : Expr σ)
  | assert (keyword : Token) (condition : Expr σ)
  | variable (name : Token) (initializer : Option (Expr σ))
  | block (site : σ) (body : List (Stmt σ))
  | conditional (condition : Expr σ) (yes : Stmt σ) (no : Option (Stmt σ))
  | loop (condition : Expr σ) (body : Stmt σ)
  /-- A function, whose parameters and body share one scope. -/
  | function (site : σ) (name : Token) (params : List Token) (body : List (Stmt σ))
  | return (keyword : Token) (value : Option (Expr σ))
  /-- The end of the input. -/
  | endMarker
  | foreign (what : Foreign)

/-- What goes wrong inside the machinery rather than in a program: a node of neither family, an
operator without a meaning, a step beyond the outermost scope, a tree too high to be written. -/
inductive Fault where
  | unknownStatement (what : Foreign)
  | unknownExpression (what : Foreign)
  | unknownOperator (kind : Kind)
  | noSuchScope
  | tooHigh

/-- The wording of a fault. -/
def Fault.message : Fault → String
  | unknownStatement what => "unknown statement: " ++ what.describe
  | unknownExpression what => "unknown expression: " ++ what.describe
  | unknownOperator kind => kind.describe
  | noSuchScope => "no such scope"
  | tooHigh => "maximum recursion depth exceeded"

/-- The label under which a fault is reported. -/
def Fault.label : Fault → String
  | unknownStatement _ | unknownExpression _ => "TypeError"
  | unknownOperator _ => "KeyError"
  | noSuchScope => "AttributeError"
  | tooHigh => "RecursionError"

end Lox
