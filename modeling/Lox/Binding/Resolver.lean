import Lox.Binding.Basic

/-!
# Finding the bindings of a statement

A statement is walked once, in the order of its text, with the names that the scopes around the
current place have declared so far. Parameters and body of a function share one scope, since a call
makes one frame for both. The outermost scope is not tracked: globals may be declared later, and
twice.
-/
namespace Lox

/-- The names declared by the scopes around a place, innermost first, and what has been found. -/
structure Walk where
  scopes : List (List String)
  /-- The variable whose initializer the place is part of. -/
  initializing : Option String
  inFunction : Bool
  /-- The bindings found so far, last first. -/
  found : List Binding

/-- A walk before its first step. -/
def Walk.start : Walk := ⟨[], none, false, []⟩

/-- The distance of the innermost scope that declares `name`. -/
def findScope (name : String) : List (List String) → Option Nat
  | [] => none
  | scope :: outer => if scope.contains name then some 0 else (findScope name outer).map (· + 1)

@[simp] theorem findScope_nil (name : String) : findScope name [] = none := rfl

theorem findScope_cons_of_mem {name : String} {scope : List String} (outer : List (List String))
    (h : name ∈ scope) : findScope name (scope :: outer) = some 0 := by
  simp [findScope, h]

theorem findScope_cons_of_not_mem {name : String} {scope : List String}
    (outer : List (List String)) (h : name ∉ scope) :
    findScope name (scope :: outer) = (findScope name outer).map (· + 1) := by
  simp [findScope, h]

/-- A step of a walk. What it has found is kept when it fails. -/
abbrev Resolver := EStateM ResolutionFailure Walk

namespace Resolver

/-- Fails with an error of the program. -/
def fail {α : Type} (cause : ResolutionError.Cause) (line : Option Int) : Resolver α :=
  throw (.error ⟨cause, line⟩)

/-- Declares a name in the innermost scope. -/
def declare (name : Token) : Resolver Unit := do
  let walk ← get
  match walk.scopes with
  | [] => return
  | scope :: outer =>
    if scope.contains name.lexeme then fail .declaredTwice name.line
    else set { walk with scopes := (name.lexeme :: scope) :: outer }

/-- Walks through a new scope. -/
def inScope (body : Resolver Unit) : Resolver Unit := do
  modify fun walk => { walk with scopes := [] :: walk.scopes }
  body
  modify fun walk => { walk with scopes := walk.scopes.tail }

/-- Walks through the initializer of a variable. -/
def inInitializer (name : Token) (initializer : Resolver Unit) : Resolver Unit := do
  modify fun walk => { walk with initializing := some name.lexeme }
  initializer
  modify fun walk => { walk with initializing := none }

/-- Walks through parameters and body of a function. -/
def inFunction (params : List Token) (body : Resolver Unit) : Resolver Unit := do
  let outside := (← get).inFunction
  inScope do
    modify fun walk => { walk with inFunction := true }
    params.forM declare
    body
    modify fun walk => { walk with inFunction := outside }

/-- Binds a reference to the innermost scope that declares its name, if there is one. -/
def bind (site : Site) (kind : ReferenceKind) (name : Token) : Resolver Unit :=
  modify fun walk =>
    match findScope name.lexeme walk.scopes with
    | none => walk
    | some distance =>
      { walk with found := ⟨site, kind, name, distance, walk.inFunction⟩ :: walk.found }

/-- Binds a reference that reads a variable, which must not be the one that is being initialized. -/
def read (site : Site) (name : Token) : Resolver Unit := do
  if (← get).initializing = some name.lexeme then fail .ownInitializer name.line
  else bind site .read name

/-- Walks through an expression, at most so deep. An assignment is bound behind its value. -/
def expression : Nat → Expr Site → Resolver Unit
  | 0, _ => fail .tooDeep none
  | depth + 1, e =>
    match e with
    | .literal _ => return
    | .grouping inner => expression depth inner
    | .unary _ operand => expression depth operand
    | .binary left _ right | .logical left _ right => do
      expression depth left
      expression depth right
    | .variable site name => read site name
    | .assignment site name value => do
      expression depth value
      bind site .assignment name
    | .call callee _ arguments => do
      expression depth callee
      arguments.forM (expression depth)
    | .foreign what => throw (.fault (.unknownExpression what))

/-- Walks through a statement, at most so deep. A function's own name is declared before its body,
so that the body may refer to it. -/
def statement : Nat → Stmt Site → Resolver Unit
  | 0, _ => fail .tooDeep none
  | depth + 1, s =>
    match s with
    | .expression value | .print value | .assert _ value => expression depth value
    | .variable name initializer => do
      declare name
      match initializer with
      | none => return
      | some value => inInitializer name (expression depth value)
    | .block _ body => inScope (body.forM (statement depth))
    | .conditional condition yes no => do
      expression depth condition
      statement depth yes
      match no with
      | none => return
      | some no => statement depth no
    | .loop condition body => do
      expression depth condition
      statement depth body
    | .function _ name params body => do
      declare name
      inFunction params (body.forM (statement depth))
    | .return _ value =>
      match value with
      | none => return
      | some value => expression depth value
    | .endMarker => return
    | .foreign what => throw (.fault (.unknownStatement what))

end Resolver

/-- Whether a statement could be resolved, and its bindings in the order in which they were found.
An error of the program leaves none of them; a fault leaves those found before it. -/
def Stmt.resolve (depth : Nat) (s : Stmt Site) : Except ResolutionFailure Unit × List Binding :=
  match Resolver.statement depth s Walk.start with
  | .ok _ walk => (.ok (), walk.found.reverse)
  | .error (.error error) _ => (.error (.error error), [])
  | .error (.fault fault) walk => (.error (.fault fault), walk.found.reverse)

/-- The bindings that are needed only while the statement itself is executed. -/
def transient (bindings : List Binding) : List Binding :=
  bindings.filter (!·.inFunction)

end Lox
