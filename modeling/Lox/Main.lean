import Lox.CommandLine.Basic

/-!
# The program

The outermost layer: it reads arguments, files and typed lines, hands them to the command line and
the shell, and writes what they answer. It decides nothing by itself. Readings of the clock all give
the time at which the source at hand was begun.
-/
namespace Lox.CommandLine

/-- The bytes of a file, if it can be read. -/
def readFile (file : String) : IO (Option (List UInt8)) := do
  try return some (← IO.FS.readBinFile file).toList
  catch _ => return none

/-- The time in seconds. -/
def now : IO Float :=
  return Float.ofNat (← IO.monoMsNow) / 1000

/-- Writes to both output streams. -/
def write (output errors : String) : IO Unit := do
  let stdout ← IO.getStdout
  stdout.putStr output
  stdout.flush
  (← IO.getStderr).putStr errors

/-- The escape codes of terminals: cyan, and red in bold face. -/
def escapeCodes : Colouring where
  place text := "\x1b[36m" ++ text ++ "\x1b[0m"
  label text := "\x1b[1m\x1b[31m" ++ text ++ "\x1b[0m"

/-- Types the lines of the standard input into a shell until it stops. -/
partial def talk (colouring : Colouring) (shell : Shell) : IO Unit := do
  write shell.prompt ""
  let line ← (← IO.getStdin).getLine
  let time ← now
  let shell := { shell with session.machine.clock := fun _ => time }
  match shell.enter .standard (if line = "" then "EOF" else (line.dropSuffix "\n").toString) with
  | none => return
  | some (stop, output, shell) =>
    let (reports, session) := shell.session.takeReports
    write output (written colouring reports)
    unless stop do talk colouring { shell with session }

/-- Does what the arguments ask for. -/
def perform (words : List String) : IO UInt32 := do
  let colouring := if ← (← IO.getStdout).isTty then escapeCodes else .plain
  let time ← now
  let clock := fun _ => time
  match Request.ofWords words, Shell.start clock (.initial true) with
  | .ok .shell, .ok shell =>
    write Shell.intro ""
    talk colouring shell
    return 0
  | request, _ =>
    let contents ← match request.toOption.bind Request.file? with
      | some file => readFile file
      | none => pure none
    match run .standard colouring clock (fun _ => contents) "" words with
    | none => return 1
    | some outcome =>
      write outcome.output outcome.errors
      return ((outcome.code.getD 0).toNat).toUInt32

end Lox.CommandLine

def main (words : List String) : IO UInt32 :=
  Lox.CommandLine.perform words
