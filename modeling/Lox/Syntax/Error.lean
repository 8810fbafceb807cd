import Lox.Token.Lexer

/-!
# Syntax errors

What the grammar wants at a place and does not find there. An error names the token that stands
there instead, and the line on which that token ends.
-/
namespace Lox

/-- The places of the grammar where one particular token has to stand. -/
inductive Expectation where
  | variableName | variableEnd
  | functionName | parametersStart | parameterName | parametersEnd | bodyStart
  | blockEnd
  | ifStart | ifEnd | whileStart | whileEnd
  | expressionEnd | returnEnd
  | argumentsEnd | groupingEnd
  deriving DecidableEq, Repr

/-- The token that has to stand there. -/
def Expectation.kind : Expectation → Kind
  | variableName | functionName | parameterName => .identifier
  | parametersStart | ifStart | whileStart => .leftParen
  | parametersEnd | ifEnd | whileEnd | argumentsEnd | groupingEnd => .rightParen
  | bodyStart => .leftBrace
  | blockEnd => .rightBrace
  | variableEnd | expressionEnd | returnEnd => .semicolon

/-- The wording of an unmet expectation. -/
def Expectation.phrase : Expectation → String
  | variableName => "expected identifier after 'var'"
  | variableEnd => "expected ';' after variable declaration"
  | functionName => "expected function name after 'fun'"
  | parametersStart => "expected '(' after function name"
  | parameterName => "expected parameter name"
  | parametersEnd => "expected ')' after parameters"
  | bodyStart => "expected '\x7b' before function body"
  | blockEnd => "expected '\x7d' after block"
  | ifStart => "expected '(' after 'if'"
  | ifEnd => "expected ')' after if condition"
  | whileStart => "expected '(' after 'while'"
  | whileEnd => "expected ')' after while condition"
  | expressionEnd => "expected ';' after expression"
  | returnEnd => "expected ';' after return value"
  | argumentsEnd => "expected ')' after arguments"
  | groupingEnd => "expected ')' after expression"

/-- Why tokens are no statement. -/
inductive SyntaxError.Cause where
  /-- Another token stands at the place, or none if the input ends there. -/
  | unmet (expectation : Expectation) (found : Option String)
  | noExpression
  | invalidTarget
  | tooDeep
  deriving DecidableEq, Repr

/-- The wording of a syntax error. -/
def SyntaxError.Cause.message : SyntaxError.Cause → String
  | unmet expectation (some lexeme) => expectation.phrase ++ " (at '" ++ lexeme ++ "')"
  | unmet expectation none => expectation.phrase ++ " (at end)"
  | noExpression => "expected expression"
  | invalidTarget => "invalid assignment target"
  | tooDeep => "maximum nesting depth exceeded"

/-- A place where tokens are no statement. -/
structure SyntaxError where
  cause : SyntaxError.Cause
  line : Int
  deriving DecidableEq, Repr

/-- Why no statement could be read: a place of the text is no token, or the tokens are no
statement. -/
inductive ParseError where
  | lexical (error : LexicalError)
  | syntactic (error : SyntaxError)
  deriving DecidableEq, Repr

def ParseError.diagnostic : ParseError → Diagnostic
  | lexical error => error.diagnostic
  | syntactic error => ⟨.syntactic, error.cause.message, some error.line⟩

end Lox
