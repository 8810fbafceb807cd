import Lox.CommandLine.Arguments
import Lox.Session.Listing
import Lox.Shell.Basic
import Lox.Text.Utf8

/-!
# The command line

What a call of the program does, as a function of its arguments, of the files that can be read and
of what is typed into it: what it writes, what it reports, and the code with which it exits. A call
without a file talks to its user until the input ends, and has no exit code of its own.
-/
namespace Lox.CommandLine

/-- What a call leaves behind. -/
structure Outcome where
  /-- The exit code; absent when the call was a conversation. -/
  code : Option Int
  output : String
  errors : String
  deriving DecidableEq, Repr

/-- The line that shows how the program is called. -/
def usage : String :=
  "usage: lox [-h] [--format | --tokens] [file]\n"

/-- The text that `--help` gives. -/
def manual : String :=
  usage ++
  "\npositional arguments:\n" ++
  "  file        file to interpret and run (if empty, goes to command-line mode)\n" ++
  "\noptions:\n" ++
  "  -h, --help  show this help message and exit\n" ++
  "  --format    print the file reformatted instead of running it\n" ++
  "  --tokens    print the file's tokens instead of running it\n"

/-- The outcome of a call with arguments that ask for nothing. -/
def UsageError.outcome (e : UsageError) : Outcome :=
  ⟨some 64, "", usage ++ "lox: error: " ++ e.message ++ "\n"⟩

/-- The exit code of a run that has ended with a status. -/
def exitCode : Status → Int
  | .ok | .done => 0
  | .grammarError => 65
  | .runtimeError => 70

/-- The complaint about a file that cannot be read. -/
def unopened (file : String) : Diagnostic :=
  ⟨.general, "'" ++ file ++ "' could not be opened", none⟩

/-- The text of a file with the given bytes, or without any because it cannot be read. A name with a
null character in it names no file at all. -/
def sourceText (file : String) (contents : Option (List UInt8)) : Except Escape String :=
  if file.toList.contains '\x00' then .error (.internal "ValueError" "embedded null byte")
  else match contents with
    | none => .error (.reported (unopened file))
    | some bytes =>
      match Text.decodeUtf8 bytes with
      | .error error => .error (.internal "UnicodeDecodeError" error.message)
      | .ok text => .ok (String.ofList (Text.unifyNewlines text))

/-- The reports of a session as they are written. -/
def written (colouring : Colouring) (reports : List Report) : String :=
  String.join (reports.map (·.text colouring))

/-- The outcome of a script that has ended with a status. -/
def finish (colouring : Colouring) (status : Status) (s : Session) : Outcome :=
  ⟨some (exitCode status), s.machine.output, written colouring s.reports⟩

/-- The outcome of a script that something has escaped from. -/
def abort (colouring : Colouring) (escape : Escape) (s : Session) : Outcome :=
  let s := s.reportEscape escape
  ⟨s.reporter.exitAfter escape, s.machine.output, written colouring s.reports⟩

/-- What is done with the source of a file. -/
def work (limits : Limits) (listing : Option Listing) (source : String) : SessionM Status :=
  match listing with
  | none => Session.runSource limits source
  | some .format => Session.format limits source
  | some .tokens => Session.tokenize source

/-- Runs a file or writes it out. Nothing is known of a run that does not end within its rounds. -/
def runFile (limits : Limits) (colouring : Colouring) (clock : Nat → Float) (listing : Option Listing)
    (file : String) (contents : Option (List UInt8)) : Option Outcome :=
  let reporter := Reporter.initial true
  match Session.start .script file clock reporter with
  | .error diagnostic =>
    some ⟨some 1, "", written colouring (reporter.reportEscape (.reported diagnostic)).toList⟩
  | .ok session =>
    match sourceText file contents with
    | .error escape => some (abort colouring escape session)
    | .ok source =>
      match work limits listing source session with
      | .ok status session => some (finish colouring status session)
      | .error (.fault fault) session => some (abort colouring fault.escape session)
      | .error .unfinished _ => none

/-- A conversation over what is typed in. -/
def runShell (limits : Limits) (colouring : Colouring) (clock : Nat → Float) (input : String) :
    Option Outcome :=
  match Shell.start clock (.initial true) with
  | .error _ => none
  | .ok shell => do
    let lines := (Text.splitNewlines input.toList).map String.ofList
    let (output, last) ← shell.converse limits lines
    some ⟨none, Shell.intro ++ output, written colouring last.session.reports⟩

/-- A call of the program. -/
def run (limits : Limits) (colouring : Colouring) (clock : Nat → Float)
    (contents : String → Option (List UInt8)) (input : String) (words : List String) :
    Option Outcome :=
  match Request.ofWords words with
  | .error error => some error.outcome
  | .ok .help => some ⟨some 0, manual, ""⟩
  | .ok .shell => runShell limits colouring clock input
  | .ok (.run file) => runFile limits colouring clock none file (contents file)
  | .ok (.list listing file) => runFile limits colouring clock (some listing) file (contents file)

end Lox.CommandLine
