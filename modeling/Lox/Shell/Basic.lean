import Lox.Session.Basic
import Lox.Shell.Continuation

/-!
# The interactive shell

Lines are typed into an interactive session. A line is run as soon as it leaves nothing open; until
then it waits for more lines. The words `help`, `exit` and `EOF` at the start of a line are commands
of the shell, unless lines are waiting. The values of expression statements are echoed.
-/
namespace Lox

/-- A shell: its session, and the lines that wait for more, each with its line break. -/
structure Shell where
  session : Session
  pending : String

namespace Shell

/-- The commands of the shell. -/
inductive Command where
  | help
  | exit
  | endOfInput
  deriving DecidableEq, Repr

/-- What a typed line asks for. -/
inductive Line where
  | empty
  | command (command : Command)
  | source (text : String)
  deriving DecidableEq, Repr

/-- What is written when the shell starts. -/
def intro : String :=
  "lox interpreter :: Python backend\nType 'help' for more information, 'exit' to leave.\n"

/-- The tour that `help` gives. -/
def tour : String :=
  "Welcome to the lox interpreter!\n\n" ++
  "Type statements to run them: 'var x = 1;', 'print x + 2;'. The value of an expression \n" ++
  "statement such as 'x * 3;' is echoed back. Blocks and functions can span several \n" ++
  "lines: the prompt changes to '. ' until every brace is closed.\n\n" ++
  "Variables and functions stay defined until you leave with 'exit' or Ctrl-D.\n"

/-- A shell over a new interactive session. -/
def start (clock : Nat → Float) (reporter : Reporter) : Except Diagnostic Shell := do
  return ⟨← Session.start .interactive Session.terminalPath clock reporter, ""⟩

/-- The prompt for the next line, which tells whether lines wait. -/
def prompt (shell : Shell) : String :=
  if shell.pending = "" then "> " else ". "

/-- The characters of a command's name. -/
def isCommandChar (c : Char) : Bool :=
  c.isAlphanum || c = '_'

/-- The command that the first word of a line names. -/
def command? (text : List Char) : Option Command :=
  match String.ofList (text.takeWhile isCommandChar) with
  | "help" => some .help
  | "exit" => some .exit
  | "EOF" => some .endOfInput
  | _ => none

/-- What a line asks for. While lines wait, and when it starts with `!` or `?`, it is source as it
stands; otherwise the blanks around it are taken off first. -/
def read (waiting : Bool) (line : String) : Line :=
  let first := (Text.stripLeft line.toList).head?
  if waiting || first = some '!' || first = some '?' then
    if line = "" then .empty else .source line
  else
    match Text.strip line.toList with
    | [] => .empty
    | text =>
      match command? text with
      | some command => .command command
      | none => .source (String.ofList text)

/-- What a typed line leads to. -/
inductive Action where
  | ignore
  | command (command : Command)
  /-- The text, which leaves something open, waits for the next line. -/
  | wait (pending : String)
  | run (source : String)
  deriving DecidableEq, Repr

/-- What a line leads to behind the lines that wait. Those keep their line breaks, and none follows
the last line of a source. -/
def action (pending line : String) : Action :=
  match read (pending ≠ "") line with
  | .empty => .ignore
  | .command command => .command command
  | .source text =>
    let source := pending ++ text
    if leavesOpen source then .wait (source ++ "\n") else .run source

example : action "" " exit;" = .command .exit := by decide +kernel
example : action "(\n" "exit" = .wait "(\nexit\n" := by decide +kernel

/-- Takes all values that have been kept, each as a line. -/
def echo : Nat → SessionM String
  | 0 => return ""
  | count + 1 => do
    match ← Session.pop? with
    | none => return ""
    | some text => return text ++ "\n" ++ (← echo count)

/-- Runs a source and gives what it printed, with the echo of its values behind. -/
def respond (limits : Limits) (source : String) : SessionM String := do
  let _ ← Session.runSource limits source
  let printed ← modifyGet Session.takeOutput
  return printed ++ (← echo (← get).results.length)

/-- What a command does: whether the shell stops, and what it writes. -/
def Command.perform : Command → Bool × String
  | help => (false, tour)
  | exit => (true, "")
  | endOfInput => (true, "\n")

/-- The shell behind a source that has been run, with what it wrote. A fault is reported and stops
nothing. Nothing is known of a source that does not end within its rounds. -/
def run (limits : Limits) (session : Session) (source : String) : Option (String × Shell) :=
  match respond limits source session with
  | .ok output session => some (output, ⟨session, ""⟩)
  | .error .unfinished _ => none
  | .error (.fault fault) session =>
    let (output, session) := (session.reportEscape fault.escape).takeOutput
    some (output, ⟨session, ""⟩)

/-- What a line does: whether the shell stops, what it writes, and the shell afterwards. -/
def enter (limits : Limits) (shell : Shell) (line : String) : Option (Bool × String × Shell) :=
  match action shell.pending line with
  | .ignore => some (false, "", shell)
  | .command command => some (command.perform.1, command.perform.2, shell)
  | .wait pending => some (false, "", { shell with pending })
  | .run source =>
    (run limits shell.session source).map fun (output, shell) => (false, output, shell)

/-- What the shell writes while the given lines are typed into it, and the shell afterwards. The end
of the input is a command of its own; where lines still wait for more it ends nothing, and there is
no outcome. -/
def converse (limits : Limits) (shell : Shell) : List String → Option (String × Shell)
  | [] => do
    let (stop, output, next) ← shell.enter limits "EOF"
    if stop then some (shell.prompt ++ output, next) else none
  | line :: rest => do
    let (stop, output, next) ← shell.enter limits line
    if stop then some (shell.prompt ++ output, next)
    else
      let (later, last) ← next.converse limits rest
      some (shell.prompt ++ output ++ later, last)

end Shell

end Lox
