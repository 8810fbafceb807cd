import Lox.Binding.Basic
import Lox.Store

/-!
# The state of execution

A machine holds the frames, the current one among them, the distances of bound references, what has
been printed, and whether the end of the input has been executed. A run of it ends with a value,
with an error of the program, with a fault of the machinery, or not within the rounds it was given;
in every case but the last the state it leaves counts.
-/
namespace Lox

/-- Why a program cannot go on. -/
inductive RuntimeError.Cause where
  | alreadyDeclared (name : String)
  | notDefined (name : String)
  | notDeclared (name : String)
  | assertionFailed
  | operandNotNumber
  | leftNotNumber
  | rightNotNumber
  | rightNotString
  | leftNotAddable
  | notCallable
  | wrongArity (expected given : Nat)
  | topLevelReturn
  | tooDeep
  deriving DecidableEq, Repr

/-- The wording of a runtime error. -/
def RuntimeError.Cause.message : RuntimeError.Cause → String
  | alreadyDeclared name => "variable already declared: '" ++ name ++ "'"
  | notDefined name => "variable not defined: '" ++ name ++ "'"
  | notDeclared name => "variable not declared: '" ++ name ++ "'"
  | assertionFailed => "assertion failed"
  | operandNotNumber => "operand must be a number"
  | leftNotNumber => "left operand must be a number"
  | rightNotNumber => "right operand must be a number"
  | rightNotString => "right operand must be a string"
  | leftNotAddable => "left operand must be a number or a string"
  | notCallable => "can only call functions"
  | wrongArity expected given =>
    "expected " ++ toString expected ++ " arguments but got " ++ toString given
  | topLevelReturn => "cannot return from top-level code"
  | tooDeep => "maximum recursion depth exceeded"

/-- A place where a program cannot go on. -/
structure RuntimeError where
  cause : RuntimeError.Cause
  line : Option Int
  deriving DecidableEq, Repr

def RuntimeError.diagnostic (e : RuntimeError) : Diagnostic :=
  ⟨.runtime, e.cause.message, e.line⟩

/-- Why a run ends without a value. -/
inductive Stop where
  | error (error : RuntimeError)
  | fault (fault : Fault)
  /-- A loop has used up its rounds: whether it would have ended is not known. -/
  | unfinished

/-- The state of execution. -/
structure Machine where
  store : Store
  current : FrameId
  distances : Distances
  /-- Whether the end of the input has been executed. -/
  done : Bool
  output : String
  /-- What the clock says when it is read for the first, second, … time, and how often it was. -/
  clock : Nat → Float
  readings : Nat

namespace Machine

/-- The outermost frame of every program. -/
def globals : FrameId := 0

/-- A machine before its first statement: the only global is the clock. -/
def initial (clock : Nat → Float) : Machine where
  store := (Store.empty.push [] none).define globals "clock" (.native .clock)
  current := globals
  distances := .empty
  done := false
  output := ""
  clock := clock
  readings := 0

end Machine

/-- A run of the machine that gives an `α`. -/
abbrev Run := EStateM Stop Machine

namespace Run

/-- Ends the run with an error of the program. -/
def fail {α : Type} (cause : RuntimeError.Cause) (line : Option Int) : Run α :=
  throw (.error ⟨cause, line⟩)

/-- Ends the run with a fault. -/
def fault {α : Type} (f : Fault) : Run α :=
  throw (.fault f)

/-- Binds a name in a frame, which must not bind it yet. -/
def define (id : FrameId) (name : String) (value : Value) (line : Option Int) : Run Unit := do
  if (← get).store.binds id name then fail (.alreadyDeclared name) line
  else modify fun m => { m with store := m.store.define id name value }

/-- The value that one frame binds to a name. -/
def readIn (id : FrameId) (name : String) (line : Option Int) : Run Value := do
  match (← get).store.read? id name with
  | none => fail (.notDefined name) line
  | some value => return value

/-- Binds another value to a name that one frame binds. -/
def writeIn (id : FrameId) (name : String) (value : Value) (line : Option Int) : Run Value := do
  if (← get).store.binds id name then
    modify fun m => { m with store := m.store.write id name value }
    return value
  else fail (.notDeclared name) line

/-- The value that the innermost frame of a chain binds to a name. -/
def lookup (id : FrameId) (name : String) (line : Option Int) : Run Value := do
  match (← get).store.owner? id name with
  | none => fail (.notDefined name) line
  | some owner => readIn owner name line

/-- Binds another value to a name in the innermost frame of a chain that binds it. -/
def assign (id : FrameId) (name : String) (value : Value) (line : Option Int) : Run Value := do
  match (← get).store.owner? id name with
  | none => fail (.notDeclared name) line
  | some owner => writeIn owner name value line

/-- The frame `distance` steps out of another. -/
def ancestor (id : FrameId) (distance : Nat) : Run FrameId := do
  match (← get).store.ancestor? id distance with
  | none => fault .noSuchScope
  | some frame => return frame

/-- The value that the frame `distance` steps out binds to a name. -/
def lookupAt (id : FrameId) (distance : Nat) (name : String) (line : Option Int) : Run Value := do
  readIn (← ancestor id distance) name line

/-- Binds another value to a name in the frame `distance` steps out. -/
def assignAt (id : FrameId) (distance : Nat) (name : String) (value : Value)
    (line : Option Int) : Run Value := do
  writeIn (← ancestor id distance) name value line

/-- Makes a frame inside another one. -/
def enter (outer : FrameId) (origin : Option Site) : Run FrameId := do
  let store := (← get).store
  let id := store.next
  let outer := store.chain outer
  modify fun m => { m with store := m.store.push outer origin }
  return id

/-- Runs `body` with another current frame, and makes the old one current again however it ends. -/
def within {α : Type} (frame : FrameId) (body : Run α) : Run α := fun m =>
  let previous := m.current
  match body { m with current := frame } with
  | .ok a m => .ok a { m with current := previous }
  | .error stop m => .error stop { m with current := previous }

/-- Writes a line to the output. -/
def print (line : String) : Run Unit :=
  modify fun m => { m with output := m.output ++ line ++ "\n" }

/-- Reads the clock. -/
def readClock : Run Value := do
  let m ← get
  set { m with readings := m.readings + 1 }
  return .number (m.clock m.readings)

end Run

end Lox
