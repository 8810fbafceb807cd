import Lox.Proofs.Recovery.Procedures

/-!
# The readers as procedures

Each reader of the parser as a procedure, with the loops that the parser has: they go on as long as
there is a comma, an operator, an opening parenthesis or another statement. Followed on a stream the
procedures are the readers.
-/
namespace Lox.Procedure
variable {α β : Type}

/-- A look at the next token. -/
def look : Procedure Token :=
  peek done

/-- Takes the next token. -/
def take : Procedure Token :=
  pop done

@[simp] theorem onStream_look : look.onStream = Parser.peek := by
  funext s
  simp only [look, onStream, Outcome.bind_apply, Outcome.pure_apply]
  cases Parser.peek s <;> rfl

@[simp] theorem onStream_take : take.onStream = Parser.pop := by
  funext s
  simp only [take, onStream, Outcome.bind_apply, Outcome.pure_apply]
  cases Parser.pop s <;> rfl

@[simp] theorem onStream_fail (cause : SyntaxError.Cause) (line : Int) :
    (fail ⟨cause, line⟩ : Procedure α).onStream = Parser.fail cause line := rfl

/-- Whether the next token is of one of these kinds. -/
def check (kinds : List Kind) : Procedure Bool := do
  return kinds.contains (← look).kind

@[simp] theorem onStream_check (kinds : List Kind) : (check kinds).onStream = Parser.check kinds := by
  simp [check, Parser.check]

/-- Fails because the nesting is too deep. -/
def tooDeep : Procedure α :=
  line fun n => fail ⟨.tooDeep, n⟩

@[simp] theorem onStream_tooDeep : (tooDeep : Procedure α).onStream = Parser.tooDeep := rfl

/-- Takes the token that has to stand at a place of the grammar. -/
def expect (expectation : Expectation) : Procedure Token := do
  let token ← look
  if token.kind = expectation.kind then take
  else fail ⟨.unmet expectation (if token.kind = .eof then none else some token.lexeme), token.line⟩

@[simp] theorem onStream_expect (expectation : Expectation) :
    (expect expectation).onStream = Parser.expect expectation := by
  simp [expect, Parser.expect]

/-- Repeats `step` until it has nothing to add. -/
def repeatWhile (step : β → Procedure (Option β)) (b : β) : Procedure β :=
  loop step b done

@[simp] theorem onStream_repeatWhile (step : β → Procedure (Option β)) (b : β) :
    (repeatWhile step b).onStream = Parser.repeatWhile (fun b => (step b).onStream) b := by
  funext s
  simp only [repeatWhile, onStream, Outcome.bind_apply, Outcome.pure_apply]
  cases Parser.repeatWhile (fun b => (step b).onStream) b s <;> rfl

/-- One or more items with commas between them. -/
def separated (item : Procedure α) : Procedure (List α) := do
  let first ← item
  let reversed ← repeatWhile (fun items => do
    if ← check [.comma] then
      let _ ← take
      return some ((← item) :: items)
    else return none) [first]
  return reversed.reverse

@[simp] theorem onStream_separated (item : Procedure α) :
    (separated item).onStream = Parser.separated item.onStream := by
  simp [separated, Parser.separated]

/-- Items with commas between them up to a closing parenthesis, which stays where it is. -/
def list (item : Procedure α) : Procedure (List α) := do
  if ← check [.rightParen] then return [] else separated item

@[simp] theorem onStream_list (item : Procedure α) :
    (list item).onStream = Parser.list item.onStream := by
  simp [list, Parser.list]

/-- Operands with operators of one level between them, grouped to the left. -/
def chain (level : Parser.Level) (operand : Procedure (Expr Unit)) : Procedure (Expr Unit) := do
  let first ← operand
  repeatWhile (fun left => do
    if ← check level.kinds then
      let operator ← take
      return some (level.node left operator (← operand))
    else return none) first

@[simp] theorem onStream_chain (level : Parser.Level) (operand : Procedure (Expr Unit)) :
    (chain level operand).onStream = Parser.chain level operand.onStream := by
  simp [chain, Parser.chain]

/-- Chains of the given levels, of which the later ones bind tighter. -/
def climb (operand : Procedure (Expr Unit)) : List Parser.Level → Procedure (Expr Unit)
  | [] => operand
  | level :: tighter => chain level (climb operand tighter)

@[simp] theorem onStream_climb (operand : Procedure (Expr Unit)) (tighter : List Parser.Level) :
    (climb operand tighter).onStream = Parser.climb operand.onStream tighter := by
  induction tighter with
  | nil => rfl
  | cons level tighter ih => simp only [climb, Parser.climb, onStream_chain, ih]

/-- The expressions that no operator is part of. `inner` reads what stands in parentheses. -/
def primary (inner : Procedure (Expr Unit)) : Procedure (Expr Unit) := do
  let token ← look
  match token.kind with
  | .identifier => return .variable () (← take)
  | .kwFalse => let _ ← take; return .literal (.bool false)
  | .kwTrue => let _ ← take; return .literal (.bool true)
  | .kwNil => let _ ← take; return .literal .nil
  | .number | .string => return .literal ((← take).literal.getD .nil)
  | .leftParen =>
    let _ ← take
    let expression ← inner
    let _ ← expect .groupingEnd
    return .grouping expression
  | _ => fail ⟨.noExpression, token.line⟩

@[simp] theorem onStream_primary (inner : Procedure (Expr Unit)) :
    (primary inner).onStream = Parser.primary inner.onStream := by
  simp only [primary, Parser.primary, onStream_bind, onStream_look]
  congr 1
  funext token
  generalize token.kind = kind
  split <;> simp

/-- A primary expression and the calls made of it. -/
def call (inner : Procedure (Expr Unit)) : Procedure (Expr Unit) := do
  let callee ← primary inner
  repeatWhile (fun callee => do
    if ← check [.leftParen] then
      let _ ← take
      let arguments ← list inner
      return some (.call callee (← expect .argumentsEnd) arguments)
    else return none) callee

@[simp] theorem onStream_call (inner : Procedure (Expr Unit)) :
    (call inner).onStream = Parser.call inner.onStream := by
  simp [call, Parser.call]

mutual

/-- An expression, at most so deep. -/
def expression : Nat → Procedure (Expr Unit)
  | 0 => tooDeep
  | depth + 1 => do
    let target ← climb (unary depth) Parser.levels
    if ← check [.equal] then
      let equals ← take
      let value ← expression depth
      match target with
      | .variable _ name => return .assignment () name value
      | _ => fail ⟨.invalidTarget, equals.line⟩
    else return target

/-- A unary expression, at most so deep. What stands in it in parentheses or among arguments is
another eight levels of operators down. -/
def unary : Nat → Procedure (Expr Unit)
  | depth + 8 => do
    if ← check [.bang, .minus] then
      let operator ← take
      return .unary operator (← unary (depth + 7))
    else call (expression depth)
  | _ => tooDeep

end

theorem onStream_expression_unary (depth : Nat) :
    (expression depth).onStream = Parser.expression depth ∧
      (unary depth).onStream = Parser.unary depth := by
  induction depth using Nat.strongRecOn with
  | ind depth ih =>
    constructor
    · cases depth with
      | zero =>
        unfold expression Parser.expression
        exact onStream_tooDeep
      | succ depth =>
        obtain ⟨hexpression, hunary⟩ := ih depth (Nat.lt_succ_self _)
        unfold expression Parser.expression
        simp only [onStream_bind, onStream_climb, onStream_check, onStream_ite, onStream_take,
          onStream_pure, hexpression, hunary]
        congr 1
        funext target
        cases target <;> simp
    · rcases depth with _ | _ | _ | _ | _ | _ | _ | _ | depth
      iterate 8 (unfold unary Parser.unary; exact onStream_tooDeep)
      unfold unary Parser.unary
      simp [(ih (depth + 7) (Nat.lt_succ_self _)).2, (ih depth (by omega)).1]

@[simp] theorem onStream_expression (depth : Nat) :
    (expression depth).onStream = Parser.expression depth :=
  (onStream_expression_unary depth).1

/-- Statements up to the brace that closes their block, and that brace. -/
def block (statement : Procedure (Stmt Unit)) : Procedure (List (Stmt Unit)) := do
  let reversed ← repeatWhile (fun statements => do
    if ← check [.rightBrace, .eof] then return none
    else return some ((← statement) :: statements)) []
  let _ ← expect .blockEnd
  return reversed.reverse

@[simp] theorem onStream_block (statement : Procedure (Stmt Unit)) :
    (block statement).onStream = Parser.block statement.onStream := by
  simp [block, Parser.block]

/-- A variable declaration. -/
def variableDeclaration (expression : Procedure (Expr Unit)) : Procedure (Stmt Unit) := do
  let _ ← take
  let name ← expect .variableName
  let initializer ← do
    if ← check [.equal] then
      let _ ← take
      some <$> expression
    else pure none
  let _ ← expect .variableEnd
  return .variable name initializer

@[simp] theorem onStream_variableDeclaration (expression : Procedure (Expr Unit)) :
    (variableDeclaration expression).onStream =
      Parser.variableDeclaration expression.onStream := by
  simp [variableDeclaration, Parser.variableDeclaration]

/-- A function declaration. -/
def functionDeclaration (statement : Procedure (Stmt Unit)) : Procedure (Stmt Unit) := do
  let _ ← take
  let name ← expect .functionName
  let _ ← expect .parametersStart
  let params ← list (expect .parameterName)
  let _ ← expect .parametersEnd
  let _ ← expect .bodyStart
  return .function () name params (← block statement)

@[simp] theorem onStream_functionDeclaration (statement : Procedure (Stmt Unit)) :
    (functionDeclaration statement).onStream = Parser.functionDeclaration statement.onStream := by
  simp [functionDeclaration, Parser.functionDeclaration]

/-- A conditional. An `else` belongs to the nearest conditional before it. -/
def conditional (expression : Procedure (Expr Unit)) (statement : Procedure (Stmt Unit)) :
    Procedure (Stmt Unit) := do
  let _ ← take
  let _ ← expect .ifStart
  let condition ← expression
  let _ ← expect .ifEnd
  let yes ← statement
  if ← check [.kwElse] then
    let _ ← take
    return .conditional condition yes (some (← statement))
  else return .conditional condition yes none

@[simp] theorem onStream_conditional (expression : Procedure (Expr Unit))
    (statement : Procedure (Stmt Unit)) : (conditional expression statement).onStream =
      Parser.conditional expression.onStream statement.onStream := by
  simp [conditional, Parser.conditional]

/-- A loop. -/
def looping (expression : Procedure (Expr Unit)) (statement : Procedure (Stmt Unit)) :
    Procedure (Stmt Unit) := do
  let _ ← take
  let _ ← expect .whileStart
  let condition ← expression
  let _ ← expect .whileEnd
  return .loop condition (← statement)

@[simp] theorem onStream_looping (expression : Procedure (Expr Unit))
    (statement : Procedure (Stmt Unit)) : (looping expression statement).onStream =
      Parser.loop expression.onStream statement.onStream := by
  simp [looping, Parser.loop]

/-- A return statement. -/
def returning (expression : Procedure (Expr Unit)) : Procedure (Stmt Unit) := do
  let keyword ← take
  let value ← do
    if ← check [.semicolon] then pure none else some <$> expression
  let _ ← expect .returnEnd
  return .return keyword value

@[simp] theorem onStream_returning (expression : Procedure (Expr Unit)) :
    (returning expression).onStream = Parser.returning expression.onStream := by
  simp [returning, Parser.returning]

/-- An expression and the semicolon behind it. -/
def ended (expression : Procedure (Expr Unit)) : Procedure (Expr Unit) := do
  let value ← expression
  let _ ← expect .expressionEnd
  return value

@[simp] theorem onStream_ended (expression : Procedure (Expr Unit)) :
    (ended expression).onStream = Parser.ended expression.onStream := by
  simp [ended, Parser.ended]

/-- A statement, at most so deep. -/
def statement : Nat → Procedure (Stmt Unit)
  | 0 => tooDeep
  | depth + 1 => do
    let token ← look
    match token.kind with
    | .eof => let _ ← take; return .endMarker
    | .kwVar => variableDeclaration (expression depth)
    | .kwFun => functionDeclaration (statement depth)
    | .leftBrace => let _ ← take; return .block () (← block (statement depth))
    | .kwIf => conditional (expression depth) (statement depth)
    | .kwWhile => looping (expression depth) (statement depth)
    | .kwPrint => let _ ← take; return .print (← ended (expression depth))
    | .kwAssert => return .assert (← take) (← ended (expression depth))
    | .kwReturn => returning (expression depth)
    | _ => return .expression (← ended (expression depth))

/-- Followed on a stream the procedure is the reader of statements. -/
theorem onStream_statement (depth : Nat) :
    (statement depth).onStream = Parser.statement depth := by
  induction depth with
  | zero => exact onStream_tooDeep
  | succ depth ih =>
    simp only [statement, Parser.statement, onStream_bind, onStream_look]
    congr 1
    funext token
    generalize token.kind = kind
    split <;> simp [ih]

end Lox.Procedure
