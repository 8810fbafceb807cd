import Lox.Machine.Basic

/-!
# Executing statements

Statements are executed and expressions evaluated by walking their trees, to a bounded depth in
which calls are counted too. A statement either runs to its end or returns: the return is handed on by
blocks, conditionals and loops, and it ends the call around it.
-/
namespace Lox

/-- What a return statement hands to the call around it, and the line it stands on. -/
structure Returned where
  value : Value
  line : Int

/-- How a statement ends: at its own end, or with a return. -/
abbrev Completion := Option Returned

/-- The operators that take two numbers. -/
def arithmetic? : Kind → Option (Float → Float → Atom)
  | .minus => some fun a b => .number (a - b)
  | .star => some fun a b => .number (a * b)
  | .slash => some fun a b => .number (a / b)
  | .greater => some fun a b => .bool (a > b)
  | .greaterEqual => some fun a b => .bool (a ≥ b)
  | .less => some fun a b => .bool (a < b)
  | .lessEqual => some fun a b => .bool (a ≤ b)
  | _ => none

namespace Run

/-- Addition of numbers and of strings. The left operand decides which. -/
def add (line : Int) : Value → Value → Run Value
  | .atom (.number a), .atom (.number b) => return .number (a + b)
  | .atom (.number _), _ => fail .rightNotNumber line
  | .atom (.string a), .atom (.string b) => return .string (a ++ b)
  | .atom (.string _), _ => fail .rightNotString line
  | _, _ => fail .leftNotAddable line

/-- An operator on two numbers. The left operand is checked first. -/
def calculate (operator : Token) : Value → Value → Run Value
  | .atom (.number a), .atom (.number b) =>
    match arithmetic? operator.kind with
    | none => fault (.unknownOperator operator.kind)
    | some operation => return .atom (operation a b)
  | .atom (.number _), _ => fail .rightNotNumber operator.line
  | _, _ => fail .leftNotNumber operator.line

/-- A binary operator on two values. -/
def binary (operator : Token) (left right : Value) : Run Value :=
  match operator.kind with
  | .equalEqual => return .bool (left.equals right)
  | .bangEqual => return .bool (!left.equals right)
  | .plus => add operator.line left right
  | _ => calculate operator left right

/-- A unary operator on a value. -/
def unary (operator : Token) (operand : Value) : Run Value :=
  match operator.kind, operand with
  | .bang, _ => return .bool (!operand.isTruthy)
  | _, .atom (.number x) => return .number (-x)
  | _, _ => fail .operandNotNumber operator.line

/-- Whether the value of the left operand is the value of a logical expression. -/
def decides (operator : Token) (left : Value) : Bool :=
  if operator.kind = .kwOr then left.isTruthy else !left.isTruthy

/-- The value of a reference: of the frame at its distance, or of the globals. -/
def read (site : Site) (name : Token) : Run Value := do
  let m ← get
  match m.distances.find? site with
  | some distance => lookupAt m.current distance name.lexeme name.line
  | none => lookup Machine.globals name.lexeme name.line

/-- Assigns to a reference: in the frame at its distance, or among the globals. -/
def write (site : Site) (name : Token) (value : Value) : Run Value := do
  let found := (← get).distances.find? site
  match found with
  | some distance => assignAt (← get).current distance name.lexeme value name.line
  | none => assign Machine.globals name.lexeme value name.line

end Run

/-- How references find their variables: what reading one gives, and what assigning to one does. -/
structure Access where
  read : Site → Token → Run Value
  write : Site → Token → Value → Run Value

/-- References find their variables by the distances that were found before. -/
def Access.byDistance : Access := ⟨Run.read, Run.write⟩

namespace Run

/-- Executes statements until one of them returns. -/
def sequence (execute : Stmt Site → Run Completion) : List (Stmt Site) → Run Completion
  | [] => return none
  | s :: rest => do
    match ← execute s with
    | none => sequence execute rest
    | some returned => return some returned

/-- Goes round a loop, at most `rounds` times. -/
def loop (condition : Run Bool) (body : Run Completion) : Nat → Run Completion
  | 0 => throw .unfinished
  | rounds + 1 => do
    if ← condition then
      match ← body with
      | none => loop condition body rounds
      | some returned => return some returned
    else return none

/-- Binds the parameters of a call to its arguments. -/
def bindParameters (frame : FrameId) : List Token → List Value → Run Unit
  | param :: params, argument :: arguments => do
    define frame param.lexeme argument param.line
    bindParameters frame params arguments
  | _, _ => return

/-- Calls a value with arguments. `execute` runs a statement of a function's body. -/
def call (execute : Stmt Site → Run Completion) (line : Int) (callee : Value)
    (arguments : List Value) : Run Value := do
  match callee.arity? with
  | none => fail .notCallable line
  | some arity =>
    if arguments.length = arity then
      match callee with
      | .closure function =>
        let frame ← enter function.frame function.site
        bindParameters frame function.params arguments
        let completion ← within frame (sequence execute function.body)
        return (completion.map (·.value)).getD .nil
      | _ => readClock
    else fail (.wrongArity arity arguments.length) line

end Run

namespace Access
open Run

mutual

/-- The value of an expression, evaluated at most so deep. -/
def evaluate (access : Access) (rounds : Nat) : Nat → Expr Site → Run Value
  | 0, _ => fail .tooDeep none
  | depth + 1, e =>
    match e with
    | .literal value => return .atom value
    | .grouping inner => access.evaluate rounds depth inner
    | .unary operator operand => do
      unary operator (← access.evaluate rounds depth operand)
    | .binary left operator right => do
      let left ← access.evaluate rounds depth left
      let right ← access.evaluate rounds depth right
      binary operator left right
    | .logical left operator right => do
      let left ← access.evaluate rounds depth left
      if decides operator left then return left else access.evaluate rounds depth right
    | .variable site name => access.read site name
    | .assignment site name value => do
      access.write site name (← access.evaluate rounds depth value)
    | .call callee paren arguments => do
      let callee ← access.evaluate rounds depth callee
      let arguments ← arguments.mapM (access.evaluate rounds depth)
      call (access.execute rounds depth) paren.line callee arguments
    | .foreign what => fault (.unknownExpression what)

/-- Executes a statement, at most so deep. -/
def execute (access : Access) (rounds : Nat) : Nat → Stmt Site → Run Completion
  | 0, _ => fail .tooDeep none
  | depth + 1, s =>
    match s with
    | .expression value => do
      let _ ← access.evaluate rounds depth value
      return none
    | .print value => do
      print (← access.evaluate rounds depth value).shown
      return none
    | .assert keyword condition => do
      if (← access.evaluate rounds depth condition).isTruthy then return none
      else fail .assertionFailed keyword.line
    | .variable name initializer => do
      let value ← match initializer with
        | none => pure .nil
        | some initializer => access.evaluate rounds depth initializer
      define (← get).current name.lexeme value name.line
      return none
    | .block site body => do
      let frame ← enter (← get).current site
      within frame (sequence (access.execute rounds depth) body)
    | .conditional condition yes no => do
      if (← access.evaluate rounds depth condition).isTruthy then access.execute rounds depth yes
      else match no with
        | none => return none
        | some no => access.execute rounds depth no
    | .loop condition body =>
      loop ((·.isTruthy) <$> access.evaluate rounds depth condition)
        (access.execute rounds depth body) rounds
    | .function site name params body => do
      let frame := (← get).current
      define frame name.lexeme (.closure ⟨site, name, params, body, frame⟩) name.line
      return none
    | .return keyword value => do
      let value ← match value with
        | none => pure .nil
        | some value => access.evaluate rounds depth value
      return some ⟨value, keyword.line⟩
    | .endMarker => do
      modify fun m => { m with done := true }
      return none
    | .foreign what => fault (.unknownStatement what)

end

/-- Executes a statement that stands by itself. An expression gives its value, everything else nil;
a return has no call to end. -/
def interpret (access : Access) (rounds depth : Nat) (s : Stmt Site) : Run Value :=
  match s with
  | .expression value => access.evaluate rounds depth value
  | s => do
    match ← access.execute rounds depth s with
    | none => return .nil
    | some returned => fail .topLevelReturn returned.line

end Access

namespace Run

/-- The value of an expression whose references are bound by distance. -/
def evaluate (rounds : Nat) : Nat → Expr Site → Run Value :=
  Access.byDistance.evaluate rounds

/-- Executes a statement that stands by itself and whose references are bound by distance. -/
def interpret (rounds : Nat) : Nat → Stmt Site → Run Value :=
  Access.byDistance.interpret rounds

end Run

end Lox
