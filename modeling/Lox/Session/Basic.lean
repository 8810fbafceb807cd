import Lox.Binding.Resolver
import Lox.Limits
import Lox.Machine.Evaluation
import Lox.Report
import Lox.Syntax.Formatter
import Lox.Syntax.Parser

/-!
# Sessions

A session executes one source after the other on one machine. It goes statement by statement: a
statement is read, resolved, and executed before the next one is read. Every error is reported and
turned into a status, and the mode of the session decides what follows from it. A script stops
executing at the first error of the text but goes on reading, and it stops altogether at the first
runtime error. An interactive session goes on after any error and keeps the values of expression
statements.
-/
namespace Lox

/-- How a session treats errors and values. -/
inductive Mode where
  | script
  | interactive
  deriving DecidableEq, Repr

/-- How one step of a session ended, or a whole run of it. -/
inductive Status where
  | ok
  /-- An error of the text: no token, no statement, or names that do not fit together. -/
  | grammarError
  | runtimeError
  /-- The end of the input. -/
  | done
  deriving DecidableEq, Repr

/-- The name of a status in listings. -/
def Status.name : Status → String
  | ok => "OK"
  | grammarError => "GRAMMAR_ERROR"
  | runtimeError => "RUNTIME_ERROR"
  | done => "DONE"

/-- A session: its machine, the first site number that is not in use, the values of expression
statements that have not been taken, and what has been reported. -/
structure Session where
  mode : Mode
  path : String
  machine : Machine
  nextSite : Site
  results : List Value
  reporter : Reporter
  reports : List Report

/-- What ends a step without a status: a fault of the machinery, or a loop that used up its
rounds. -/
inductive Interruption where
  | fault (fault : Fault)
  | unfinished

/-- What a fault looks like from outside. -/
def Fault.escape : Fault → Escape
  | tooHigh => .tooDeep
  | fault => .internal fault.label fault.message

/-- Work on a session. -/
abbrev SessionM := EStateM Interruption Session

namespace Session

/-- The path that stands for the terminal. -/
def terminalPath : String := "<in>"

/-- The complaint about a script that has the path of the terminal. -/
def reservedPath : Diagnostic :=
  ⟨.general, "'<in>' is a reserved filename", none⟩

/-- A new session, whose reporter knows the path but no source yet. Nothing that escapes from an
interactive session ends the process. -/
def start (mode : Mode) (path : String) (clock : Nat → Float) (reporter : Reporter) :
    Except Diagnostic Session :=
  let reporter := reporter.withFile path ""
  let session (reporter : Reporter) : Session :=
    ⟨mode, path, .initial clock, 0, [], reporter, []⟩
  match mode with
  | .interactive => .ok (session { reporter with fatal := false })
  | .script => if path = terminalPath then .error reservedPath else .ok (session reporter)

/-- Reports a diagnostic. -/
def report (d : Diagnostic) : SessionM Unit :=
  modify fun s => { s with reports := s.reports ++ [s.reporter.report d false] }

/-- Makes `source` the text that reports quote. -/
def quoteFrom (source : String) : SessionM Unit :=
  modify fun s => { s with reporter := s.reporter.withFile s.path source }

/-- Writes a line to the output. -/
def print (line : String) : SessionM Unit :=
  modify fun s =>
    { s with machine := { s.machine with output := s.machine.output ++ line ++ "\n" } }

/-- Numbers and resolves a statement and records its bindings, which are returned. -/
def resolve (limits : Limits) (statement : Stmt Unit) :
    SessionM (Except ResolutionError (Stmt Site × List Binding)) := do
  let s ← get
  let (numbered, nextSite) := statement.number s.nextSite
  let (outcome, bindings) := numbered.resolve limits.scoping
  let distances := s.machine.distances.record bindings
  match outcome with
  | .error (.error error) => return .error error
  | .error (.fault fault) =>
    set { s with nextSite, machine := { s.machine with distances } }
    throw (.fault fault)
  | .ok _ =>
    set { s with nextSite, machine := { s.machine with distances } }
    return .ok (numbered, bindings)

/-- Drops the distances of bindings that are not needed any more. -/
def forget (bindings : List Binding) : SessionM Unit :=
  modify fun s => { s with
    machine := { s.machine with distances := s.machine.distances.forget bindings } }

/-- Executes a statement that has been resolved. The distances outside function bodies are dropped
afterwards, however it ended. -/
def execute (limits : Limits) (statement : Stmt Site) (bindings : List Binding)
    (access : Access := .byDistance) : SessionM (Except RuntimeError Value) := do
  let outcome := access.interpret limits.rounds limits.execution statement (← get).machine
  match outcome with
  | .ok value machine =>
    modify fun s => { s with machine }
    forget (transient bindings)
    return .ok value
  | .error stop machine =>
    modify fun s => { s with machine }
    forget (transient bindings)
    match stop with
    | .error error => return .error error
    | .fault fault => throw (.fault fault)
    | .unfinished => throw .unfinished

/-- Keeps the value of an expression statement of an interactive session. -/
def keep {σ : Type} (statement : Stmt σ) (value : Value) : SessionM Unit :=
  modify fun s =>
    match s.mode, statement with
    | .interactive, .expression _ => { s with results := s.results ++ [value] }
    | _, _ => s

/-- One step: takes the next statement of the stream, resolves it and, if `run`, executes it. -/
def step (limits : Limits) (stream : TokenStream) (run : Bool) (access : Access := .byDistance) :
    SessionM (Status × TokenStream) := do
  match stream.takeStatement limits.nesting with
  | (.error error, rest) =>
    report error.diagnostic
    return (.grammarError, rest)
  | (.ok statement, rest) =>
    match ← resolve limits statement with
    | .error error =>
      report error.diagnostic
      return (.grammarError, rest)
    | .ok (numbered, bindings) =>
      if run then
        match ← execute limits numbered bindings access with
        | .error error =>
          report error.diagnostic
          return (.runtimeError, rest)
        | .ok value =>
          if (← get).machine.done then return (.done, rest)
          keep numbered value
          return (.ok, rest)
      else
        forget (transient bindings)
        match numbered with
        | .endMarker => return (.done, rest)
        | _ => return (.ok, rest)

/-- Steps to the end of the stream, at most `fuel` of them, and gives the last status that is
neither `ok` nor `done`. -/
def steps (access : Access) (limits : Limits) : Nat → TokenStream → Status → SessionM Status
  | 0, _, status => return status
  | fuel + 1, stream, status => do
    let mode := (← get).mode
    let (result, rest) ← step limits stream (mode = .interactive || status = .ok) access
    match result with
    | .done => return status
    | .ok => steps access limits fuel rest status
    | .grammarError => steps access limits fuel rest .grammarError
    | .runtimeError =>
      if mode = .script then return .runtimeError
      else steps access limits fuel rest .runtimeError

/-- Runs everything on a stream. The end of the input is the end of an interactive session's source,
not of the session. -/
def runStream (limits : Limits) (stream : TokenStream) (access : Access := .byDistance) :
    SessionM Status := do
  let status ← steps access limits (stream.remaining + 1) stream .ok
  modify fun s =>
    match s.mode with
    | .interactive => { s with machine := { s.machine with done := false } }
    | .script => s
  return status

/-- Runs a source. -/
def runSource (limits : Limits) (source : String) (access : Access := .byDistance) :
    SessionM Status := do
  quoteFrom source
  runStream limits (TokenStream.ofText source) access

/-- Takes the oldest value that has been kept, as the text that `print` would write. -/
def pop? : SessionM (Option String) := do
  match (← get).results with
  | [] => return none
  | value :: rest =>
    modify fun s => { s with results := rest }
    return some value.shown

/-- What has been printed, and the session without it. -/
def takeOutput (s : Session) : String × Session :=
  (s.machine.output, { s with machine := { s.machine with output := "" } })

/-- What has been reported, and the session without it. -/
def takeReports (s : Session) : List Report × Session :=
  (s.reports, { s with reports := [] })

/-- The session with a report of what has escaped from its work. -/
def reportEscape (s : Session) (e : Escape) : Session :=
  { s with reports := s.reports ++ (s.reporter.reportEscape e).toList }

end Session

end Lox
