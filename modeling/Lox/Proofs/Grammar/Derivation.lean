import Lox.Syntax.Parser

/-!
# Derivations

The derivations of the grammar, one constructor for each alternative of a rule. A derivation yields
tokens and stands for a tree: operators of one level are collected as they stand in the text and
grouped to the left in the tree. The grammar leaves open to which conditional an `else` belongs; a
derivation is near when every `else` belongs to the nearest conditional that is still open.
-/
namespace Lox.Grammar
open Lox.Parser (Level levels)

/-- A token of a kind. -/
abbrev Word (kind : Kind) := { token : Token // token.kind = kind }

/-- A token of one of some kinds. -/
abbrev OneOf (kinds : List Kind) := { token : Token // token.kind ∈ kinds }

mutual

/-- An assignment, or operators of all levels. -/
inductive Expression : Type where
  | assignment (name : Word .identifier) (equals : Word .equal) (value : Expression)
  | operation (operation : Operation levels)

/-- Operators of some levels, the loosest first: operands of the next level with operators of the
first level between them. -/
inductive Operation : List Level → Type where
  | unary (operand : Unary) : Operation []
  | chain {level : Level} {tighter : List Level} (first : Operation tighter)
      (rest : Operands level tighter) : Operation (level :: tighter)

/-- Operators of a level, each with the operand behind it. -/
inductive Operands : Level → List Level → Type where
  | none {level : Level} {tighter : List Level} : Operands level tighter
  | more {level : Level} {tighter : List Level} (operator : OneOf level.kinds)
      (operand : Operation tighter) (rest : Operands level tighter) : Operands level tighter

/-- A unary operator with its operand, or calls. -/
inductive Unary : Type where
  | operator (operator : OneOf [.bang, .minus]) (operand : Unary)
  | call (callee : Primary) (calls : Calls)

/-- Lists of arguments in parentheses, one behind the other. -/
inductive Calls : Type where
  | none
  | more (left : Word .leftParen) (arguments : Arguments) (right : Word .rightParen) (rest : Calls)

/-- The arguments of a call. -/
inductive Arguments : Type where
  | none
  | some (first : Expression) (rest : MoreArguments)

/-- Arguments behind the first one. -/
inductive MoreArguments : Type where
  | none
  | more (comma : Word .comma) (argument : Expression) (rest : MoreArguments)

/-- An expression that no operator is part of. -/
inductive Primary : Type where
  | literal (token : OneOf [.number, .string])
  | true (token : Word .kwTrue)
  | false (token : Word .kwFalse)
  | nil (token : Word .kwNil)
  | name (token : Word .identifier)
  | group (left : Word .leftParen) (inner : Expression) (right : Word .rightParen)

end

/-- The parameters of a function. -/
inductive Parameters where
  | none
  | some (first : Word .identifier) (rest : List (Word .comma × Word .identifier))

mutual

/-- A statement. The token at the end of the input is one as well. -/
inductive Statement : Type where
  | endOfInput (token : Word .eof)
  | variable (keyword : Word .kwVar) (name : Word .identifier) (semicolon : Word .semicolon)
  | initialized (keyword : Word .kwVar) (name : Word .identifier) (equals : Word .equal)
      (initializer : Expression) (semicolon : Word .semicolon)
  | function (keyword : Word .kwFun) (name : Word .identifier) (left : Word .leftParen)
      (parameters : Parameters) (right : Word .rightParen) (start : Word .leftBrace)
      (body : Statements) (stop : Word .rightBrace)
  | block (start : Word .leftBrace) (body : Statements) (stop : Word .rightBrace)
  | conditional (keyword : Word .kwIf) (left : Word .leftParen) (condition : Expression)
      (right : Word .rightParen) (yes : Statement)
  | alternative (keyword : Word .kwIf) (left : Word .leftParen) (condition : Expression)
      (right : Word .rightParen) (yes : Statement) (otherwise : Word .kwElse) (no : Statement)
  | loop (keyword : Word .kwWhile) (left : Word .leftParen) (condition : Expression)
      (right : Word .rightParen) (body : Statement)
  | print (keyword : Word .kwPrint) (value : Expression) (semicolon : Word .semicolon)
  | assert (keyword : Word .kwAssert) (condition : Expression) (semicolon : Word .semicolon)
  | return (keyword : Word .kwReturn) (semicolon : Word .semicolon)
  | returning (keyword : Word .kwReturn) (value : Expression) (semicolon : Word .semicolon)
  | expression (value : Expression) (semicolon : Word .semicolon)

/-- Statements, one behind the other. -/
inductive Statements : Type where
  | none
  | more (first : Statement) (rest : Statements)

end

mutual

/-- The tokens of an expression. -/
def Expression.yield : Expression → List Token
  | .assignment name equals value => name.1 :: equals.1 :: value.yield
  | .operation operation => operation.yield

/-- The tokens of operators and operands. -/
def Operation.yield : {tighter : List Level} → Operation tighter → List Token
  | _, .unary operand => operand.yield
  | _, .chain first rest => first.yield ++ rest.yield

/-- The tokens of operators and operands behind the first operand. -/
def Operands.yield : {level : Level} → {tighter : List Level} → Operands level tighter → List Token
  | _, _, .none => []
  | _, _, .more operator operand rest => operator.1 :: (operand.yield ++ rest.yield)

/-- The tokens of a unary expression. -/
def Unary.yield : Unary → List Token
  | .operator operator operand => operator.1 :: operand.yield
  | .call callee calls => callee.yield ++ calls.yield

/-- The tokens of lists of arguments. -/
def Calls.yield : Calls → List Token
  | .none => []
  | .more left arguments right rest => left.1 :: (arguments.yield ++ right.1 :: rest.yield)

/-- The tokens of arguments. -/
def Arguments.yield : Arguments → List Token
  | .none => []
  | .some first rest => first.yield ++ rest.yield

/-- The tokens of arguments behind the first one. -/
def MoreArguments.yield : MoreArguments → List Token
  | .none => []
  | .more comma argument rest => comma.1 :: (argument.yield ++ rest.yield)

/-- The tokens of an expression without operators. -/
def Primary.yield : Primary → List Token
  | .literal token => [token.1]
  | .true token => [token.1]
  | .false token => [token.1]
  | .nil token => [token.1]
  | .name token => [token.1]
  | .group left inner right => left.1 :: (inner.yield ++ [right.1])

end

mutual

/-- The tree of an expression. -/
def Expression.tree : Expression → Expr Unit
  | .assignment name _ value => .assignment () name.1 value.tree
  | .operation operation => operation.tree

/-- The tree of operators and operands. -/
def Operation.tree : {tighter : List Level} → Operation tighter → Expr Unit
  | _, .unary operand => operand.tree
  | _, .chain first rest => rest.tree first.tree

/-- The tree of operators and operands behind `left`. -/
def Operands.tree : {level : Level} → {tighter : List Level} → Operands level tighter →
    Expr Unit → Expr Unit
  | _, _, .none, left => left
  | level, _, .more operator operand rest, left =>
    rest.tree (level.node left operator.1 operand.tree)

/-- The tree of a unary expression. -/
def Unary.tree : Unary → Expr Unit
  | .operator operator operand => .unary operator.1 operand.tree
  | .call callee calls => calls.tree callee.tree

/-- The tree of calls of `callee`. -/
def Calls.tree : Calls → Expr Unit → Expr Unit
  | .none, callee => callee
  | .more _ arguments right rest, callee => rest.tree (.call callee right.1 arguments.trees)

/-- The trees of arguments. -/
def Arguments.trees : Arguments → List (Expr Unit)
  | .none => []
  | .some first rest => first.tree :: rest.trees

/-- The trees of arguments behind the first one. -/
def MoreArguments.trees : MoreArguments → List (Expr Unit)
  | .none => []
  | .more _ argument rest => argument.tree :: rest.trees

/-- The tree of an expression without operators. -/
def Primary.tree : Primary → Expr Unit
  | .literal token => .literal (token.1.literal.getD .nil)
  | .true _ => .literal (.bool Bool.true)
  | .false _ => .literal (.bool Bool.false)
  | .nil _ => .literal .nil
  | .name token => .variable () token.1
  | .group _ inner _ => .grouping inner.tree

end

namespace Parameters

/-- The tokens of parameters. -/
def yield : Parameters → List Token
  | none => []
  | some first rest => first.1 :: rest.flatMap fun (comma, name) => [comma.1, name.1]

/-- The names of parameters. -/
def names : Parameters → List Token
  | none => []
  | some first rest => first.1 :: rest.map fun (_, name) => name.1

end Parameters

mutual

/-- The tokens of a statement. -/
def Statement.yield : Statement → List Token
  | .endOfInput token => [token.1]
  | .variable keyword name semicolon => [keyword.1, name.1, semicolon.1]
  | .initialized keyword name equals initializer semicolon =>
    keyword.1 :: name.1 :: equals.1 :: (initializer.yield ++ [semicolon.1])
  | .function keyword name left parameters right start body stop =>
    keyword.1 :: name.1 :: left.1 ::
      (parameters.yield ++ right.1 :: start.1 :: (body.yield ++ [stop.1]))
  | .block start body stop => start.1 :: (body.yield ++ [stop.1])
  | .conditional keyword left condition right yes =>
    keyword.1 :: left.1 :: (condition.yield ++ right.1 :: yes.yield)
  | .alternative keyword left condition right yes otherwise no =>
    keyword.1 :: left.1 :: (condition.yield ++ right.1 :: (yes.yield ++ otherwise.1 :: no.yield))
  | .loop keyword left condition right body =>
    keyword.1 :: left.1 :: (condition.yield ++ right.1 :: body.yield)
  | .print keyword value semicolon => keyword.1 :: (value.yield ++ [semicolon.1])
  | .assert keyword condition semicolon => keyword.1 :: (condition.yield ++ [semicolon.1])
  | .return keyword semicolon => [keyword.1, semicolon.1]
  | .returning keyword value semicolon => keyword.1 :: (value.yield ++ [semicolon.1])
  | .expression value semicolon => value.yield ++ [semicolon.1]

/-- The tokens of statements. -/
def Statements.yield : Statements → List Token
  | .none => []
  | .more first rest => first.yield ++ rest.yield

end

mutual

/-- The tree of a statement. -/
def Statement.tree : Statement → Stmt Unit
  | .endOfInput _ => .endMarker
  | .variable _ name _ => .variable name.1 none
  | .initialized _ name _ initializer _ => .variable name.1 (some initializer.tree)
  | .function _ name _ parameters _ _ body _ => .function () name.1 parameters.names body.trees
  | .block _ body _ => .block () body.trees
  | .conditional _ _ condition _ yes => .conditional condition.tree yes.tree none
  | .alternative _ _ condition _ yes _ no => .conditional condition.tree yes.tree (some no.tree)
  | .loop _ _ condition _ body => .loop condition.tree body.tree
  | .print _ value _ => .print value.tree
  | .assert keyword condition _ => .assert keyword.1 condition.tree
  | .return keyword _ => .return keyword.1 none
  | .returning keyword value _ => .return keyword.1 (some value.tree)
  | .expression value _ => .expression value.tree

/-- The trees of statements. -/
def Statements.trees : Statements → List (Stmt Unit)
  | .none => []
  | .more first rest => first.tree :: rest.trees

end

/-- Whether a statement ends with a conditional that an `else` could still belong to. -/
def Statement.isOpen : Statement → Bool
  | .conditional .. => true
  | .alternative _ _ _ _ _ _ no => no.isOpen
  | .loop _ _ _ _ body => body.isOpen
  | _ => false

mutual

/-- Every `else` belongs to the nearest open conditional: none is open before it. -/
def Statement.Near : Statement → Prop
  | .function _ _ _ _ _ _ body _ => body.Near
  | .block _ body _ => body.Near
  | .conditional _ _ _ _ yes => yes.Near
  | .alternative _ _ _ _ yes _ no => yes.Near ∧ yes.isOpen = false ∧ no.Near
  | .loop _ _ _ _ body => body.Near
  | _ => True

/-- Every `else` of the statements belongs to the nearest open conditional. -/
def Statements.Near : Statements → Prop
  | .none => True
  | .more first rest => first.Near ∧ rest.Near

end

end Lox.Grammar
