import Lox.Syntax.Basic
import Lox.Syntax.Error
import Lox.Token.Stream

/-!
# From tokens to trees

The grammar, with the loosest operators first:

    statement  = "var" name ("=" expression)? ";" | "fun" name "(" names? ")" block | block
               | "if" "(" expression ")" statement ("else" statement)?
               | "while" "(" expression ")" statement | "print" expression ";"
               | "assert" expression ";" | "return" expression? ";" | expression ";" | end of input
    block      = "{" statement* "}"
    expression = name "=" expression | or
    or         = and ("or" and)*
    and        = equality ("and" equality)*
    equality   = comparison (("!=" | "==") comparison)*
    comparison = term ((">" | ">=" | "<" | "<=") term)*
    term       = factor (("-" | "+") factor)*
    factor     = unary (("/" | "*") unary)*
    unary      = ("!" | "-") unary | call
    call       = primary ("(" expressions? ")")*
    primary    = number | string | "true" | "false" | "nil" | name | "(" expression ")"

Statements are read one at a time and one token ahead. After an error the tokens up to the next word
that starts a statement are dropped, so that one broken statement gives one error.
-/
namespace Lox

/-- A reader of part of a tree: it takes tokens from the stream, or fails where it stands. -/
abbrev Parser := EStateM ParseError TokenStream

namespace Parser

/-- The next token, which stays where it is. A lexical error is passed over when it is reported. -/
def peek : Parser Token := fun s =>
  match s.head with
  | .ok token => .ok token s
  | .error error => .error (.lexical error) s.tail

/-- Takes the next token. -/
def pop : Parser Token := fun s =>
  match s.head with
  | .ok token => .ok token s.tail
  | .error error => .error (.lexical error) s.tail

/-- Whether the next token is of one of these kinds. -/
def check (kinds : List Kind) : Parser Bool := do
  return kinds.contains (← peek).kind

/-- Fails without taking anything. -/
def fail {α : Type} (cause : SyntaxError.Cause) (line : Int) : Parser α :=
  throw (.syntactic ⟨cause, line⟩)

/-- Fails because the nesting is too deep. -/
def tooDeep {α : Type} : Parser α := fun s =>
  fail .tooDeep s.line s

/-- Takes the token that has to stand at a place of the grammar. -/
def expect (expectation : Expectation) : Parser Token := do
  let token ← peek
  if token.kind = expectation.kind then pop
  else fail (.unmet expectation (if token.kind = .eof then none else some token.lexeme)) token.line

/-- Repeats `step` until it has nothing to add, at most `fuel` times. -/
def repeatUpTo {α : Type} (step : α → Parser (Option α)) : Nat → α → Parser α
  | 0, a => pure a
  | fuel + 1, a => do
    match ← step a with
    | none => return a
    | some next => repeatUpTo step fuel next

/-- Repeats `step` until it has nothing to add. A step that adds something takes a token, and no
step adds anything at the end of the input; so the tokens that remain are enough of a bound. -/
def repeatWhile {α : Type} (step : α → Parser (Option α)) (a : α) : Parser α := fun s =>
  repeatUpTo step s.remaining a s

/-- One or more items with commas between them. -/
def separated {α : Type} (item : Parser α) : Parser (List α) := do
  let first ← item
  let reversed ← repeatWhile (fun items => do
    if ← check [.comma] then
      let _ ← pop
      return some ((← item) :: items)
    else return none) [first]
  return reversed.reverse

/-- Items with commas between them up to a closing parenthesis, which stays where it is. -/
def list {α : Type} (item : Parser α) : Parser (List α) := do
  if ← check [.rightParen] then return [] else separated item

/-- A level of binary operators: their kinds, and the node that one of them makes. -/
structure Level where
  kinds : List Kind
  node : Expr Unit → Token → Expr Unit → Expr Unit

/-- The levels of binary operators, the loosest first. -/
def levels : List Level :=
  [⟨[.kwOr], .logical⟩, ⟨[.kwAnd], .logical⟩, ⟨[.bangEqual, .equalEqual], .binary⟩,
    ⟨[.greater, .greaterEqual, .less, .lessEqual], .binary⟩, ⟨[.minus, .plus], .binary⟩,
    ⟨[.slash, .star], .binary⟩]

/-- Operands with operators of one level between them, grouped to the left. -/
def chain (level : Level) (operand : Parser (Expr Unit)) : Parser (Expr Unit) := do
  let first ← operand
  repeatWhile (fun left => do
    if ← check level.kinds then
      let operator ← pop
      return some (level.node left operator (← operand))
    else return none) first

/-- Chains of the given levels, of which the later ones bind tighter. -/
def climb (operand : Parser (Expr Unit)) : List Level → Parser (Expr Unit)
  | [] => operand
  | level :: tighter => chain level (climb operand tighter)

/-- The expressions that no operator is part of. `inner` reads what stands in parentheses. -/
def primary (inner : Parser (Expr Unit)) : Parser (Expr Unit) := do
  let token ← peek
  match token.kind with
  | .identifier => return .variable () (← pop)
  | .kwFalse => let _ ← pop; return .literal (.bool false)
  | .kwTrue => let _ ← pop; return .literal (.bool true)
  | .kwNil => let _ ← pop; return .literal .nil
  | .number | .string => return .literal ((← pop).literal.getD .nil)
  | .leftParen =>
    let _ ← pop
    let expression ← inner
    let _ ← expect .groupingEnd
    return .grouping expression
  | _ => fail .noExpression token.line

/-- A primary expression and the calls made of it. -/
def call (inner : Parser (Expr Unit)) : Parser (Expr Unit) := do
  let callee ← primary inner
  repeatWhile (fun callee => do
    if ← check [.leftParen] then
      let _ ← pop
      let arguments ← list inner
      return some (.call callee (← expect .argumentsEnd) arguments)
    else return none) callee

mutual

/-- An expression, at most so deep. -/
def expression : Nat → Parser (Expr Unit)
  | 0 => tooDeep
  | depth + 1 => do
    let target ← climb (unary depth) levels
    if ← check [.equal] then
      let equals ← pop
      let value ← expression depth
      match target with
      | .variable _ name => return .assignment () name value
      | _ => fail .invalidTarget equals.line
    else return target

/-- A unary expression, at most so deep. What stands in it in parentheses or among arguments is
another eight levels of operators down. -/
def unary : Nat → Parser (Expr Unit)
  | depth + 8 => do
    if ← check [.bang, .minus] then
      let operator ← pop
      return .unary operator (← unary (depth + 7))
    else call (expression depth)
  | _ => tooDeep

end

/-- Statements up to the brace that closes their block, and that brace. -/
def block (statement : Parser (Stmt Unit)) : Parser (List (Stmt Unit)) := do
  let reversed ← repeatWhile (fun statements => do
    if ← check [.rightBrace, .eof] then return none
    else return some ((← statement) :: statements)) []
  let _ ← expect .blockEnd
  return reversed.reverse

/-- A variable declaration. -/
def variableDeclaration (expression : Parser (Expr Unit)) : Parser (Stmt Unit) := do
  let _ ← pop
  let name ← expect .variableName
  let initializer ← do
    if ← check [.equal] then
      let _ ← pop
      some <$> expression
    else pure none
  let _ ← expect .variableEnd
  return .variable name initializer

/-- A function declaration. -/
def functionDeclaration (statement : Parser (Stmt Unit)) : Parser (Stmt Unit) := do
  let _ ← pop
  let name ← expect .functionName
  let _ ← expect .parametersStart
  let params ← list (expect .parameterName)
  let _ ← expect .parametersEnd
  let _ ← expect .bodyStart
  return .function () name params (← block statement)

/-- A conditional. An `else` belongs to the nearest conditional before it. -/
def conditional (expression : Parser (Expr Unit)) (statement : Parser (Stmt Unit)) :
    Parser (Stmt Unit) := do
  let _ ← pop
  let _ ← expect .ifStart
  let condition ← expression
  let _ ← expect .ifEnd
  let yes ← statement
  if ← check [.kwElse] then
    let _ ← pop
    return .conditional condition yes (some (← statement))
  else return .conditional condition yes none

/-- A loop. -/
def loop (expression : Parser (Expr Unit)) (statement : Parser (Stmt Unit)) :
    Parser (Stmt Unit) := do
  let _ ← pop
  let _ ← expect .whileStart
  let condition ← expression
  let _ ← expect .whileEnd
  return .loop condition (← statement)

/-- A return statement. -/
def returning (expression : Parser (Expr Unit)) : Parser (Stmt Unit) := do
  let keyword ← pop
  let value ← do
    if ← check [.semicolon] then pure none else some <$> expression
  let _ ← expect .returnEnd
  return .return keyword value

/-- An expression and the semicolon behind it. -/
def ended (expression : Parser (Expr Unit)) : Parser (Expr Unit) := do
  let value ← expression
  let _ ← expect .expressionEnd
  return value

/-- A statement, at most so deep. -/
def statement : Nat → Parser (Stmt Unit)
  | 0 => tooDeep
  | depth + 1 => do
    let token ← peek
    match token.kind with
    | .eof => let _ ← pop; return .endMarker
    | .kwVar => variableDeclaration (expression depth)
    | .kwFun => functionDeclaration (statement depth)
    | .leftBrace => let _ ← pop; return .block () (← block (statement depth))
    | .kwIf => conditional (expression depth) (statement depth)
    | .kwWhile => loop (expression depth) (statement depth)
    | .kwPrint => let _ ← pop; return .print (← ended (expression depth))
    | .kwAssert => return .assert (← pop) (← ended (expression depth))
    | .kwReturn => returning (expression depth)
    | _ => return .expression (← ended (expression depth))

end Parser

/-- The tokens at which reading goes on after an error: the words that start a statement, and the
end of the input. -/
def Kind.isSyncPoint : Kind → Bool
  | .kwClass | .kwFun | .kwVar | .kwFor | .kwIf | .kwWhile | .kwPrint | .kwAssert | .kwReturn
  | .eof => true
  | _ => false

namespace TokenStream

/-- The stream from the next token on at which reading can go on. Lexical errors before it belong to
a statement that is already reported. -/
def sync (s : TokenStream) : TokenStream :=
  { s with pending := s.pending.dropWhile fun
      | .ok token => !token.kind.isSyncPoint
      | .error _ => true }

/-- The stream on which reading goes on after an error. A lexical error has been passed over; any
other error leaves the offending token, which is dropped even if a statement could start there. -/
def recover (s : TokenStream) : ParseError → TokenStream
  | .lexical _ => s.sync
  | .syntactic _ => s.tail.sync

/-- The next statement, nested at most so deep, or the error in its place; and the stream behind. -/
def takeStatement (depth : Nat) (s : TokenStream) :
    Except ParseError (Stmt Unit) × TokenStream :=
  match Parser.statement depth s with
  | .ok statement rest => (.ok statement, rest)
  | .error error rest => (.error error, rest.recover error)

/-- The statements and errors of a stream up to the end of the input, at most `fuel` of them. -/
def statementsUpTo (depth : Nat) : Nat → TokenStream → List (Except ParseError (Stmt Unit))
  | 0, _ => []
  | fuel + 1, s =>
    match s.takeStatement depth with
    | (.ok .endMarker, _) => [.ok .endMarker]
    | (item, rest) => item :: statementsUpTo depth fuel rest

/-- The statements and errors of a stream up to the end of the input. Each takes a token or a
lexical error. -/
def statements (depth : Nat) (s : TokenStream) : List (Except ParseError (Stmt Unit)) :=
  statementsUpTo depth (s.remaining + 1) s

end TokenStream

end Lox
