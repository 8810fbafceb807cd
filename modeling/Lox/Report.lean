import Lox.Diagnostic
import Lox.Text.Lines
import Lox.Text.Quoted

/-!
# Reports

A diagnostic is reported together with the place it blames: the file, the line, and the text of that
line if the file is known to have it. Reports are kept as data; their text may be coloured.
-/
namespace Lox

/-- The place that a report names, and the text of the line there. -/
structure Place where
  path : String
  line : Int
  quote : Option String
  deriving DecidableEq, Repr

/-- A reported diagnostic. Internal ones blame the machinery. -/
structure Report where
  place : Option Place
  internal : Bool
  diagnostic : Diagnostic
  deriving DecidableEq, Repr

/-- How a terminal colours the text that names a place, and the label that says what is wrong. -/
structure Colouring where
  place : String → String
  label : String → String

/-- Everything is written as it stands. -/
def Colouring.plain : Colouring :=
  ⟨id, id⟩

/-- The line that names a place, and the line quoted from there. -/
def Place.text (colouring : Colouring) (p : Place) : String :=
  colouring.place ("  File '" ++ p.path ++ "', line " ++ toString p.line ++ ":") ++ "\n" ++
    match p.quote with
    | none => ""
    | some quote => "    " ++ quote ++ "\n"

/-- The text of a report. A line that no place names is named with the message. -/
def Report.text (colouring : Colouring) (r : Report) : String :=
  (match r.place with
    | none => ""
    | some place => place.text colouring) ++
  (if r.internal then colouring.label "[internal] " else "") ++
  colouring.label (r.diagnostic.stage.label ++ ": ") ++
  (match r.place, r.diagnostic.line with
    | none, some line => "line " ++ toString line ++ ": "
    | _, _ => "") ++
  r.diagnostic.message ++ "\n"

/-- What leaves a guarded action before its end. -/
inductive Escape where
  | exit (code : Int)
  | interrupt
  | tooDeep
  | reported (diagnostic : Diagnostic)
  /-- Anything else, with the name of its class. -/
  | internal (label message : String)
  deriving DecidableEq, Repr

/-- Knows the file at hand, and whether anything that escapes ends the process. -/
structure Reporter where
  path : Option String
  lines : List String
  fatal : Bool
  deriving DecidableEq, Repr

namespace Reporter

/-- A reporter that knows no file yet. -/
def initial (fatal : Bool) : Reporter := ⟨none, [], fatal⟩

/-- Makes a file the one that reports quote. -/
def withFile (r : Reporter) (path source : String) : Reporter :=
  { r with path := some path, lines := (Text.lines source.toList).map String.ofList }

/-- The text of a line without the blanks around it, if the file has that line. -/
def quote? (r : Reporter) (line : Int) : Option String :=
  if 0 < line then
    r.lines[line.toNat - 1]?.map fun text => String.ofList (Text.strip text.toList)
  else none

/-- The place that a diagnostic blames. -/
def place? (r : Reporter) (d : Diagnostic) : Option Place :=
  match r.path, d.line with
  | some path, some line => some ⟨path, line, r.quote? line⟩
  | _, _ => none

/-- The text that names the place of a diagnostic, empty if it has none. -/
def context (colouring : Colouring) (r : Reporter) (d : Diagnostic) : String :=
  ((r.place? d).map (·.text colouring)).getD ""

/-- The report of a diagnostic. -/
def report (r : Reporter) (d : Diagnostic) (internal : Bool) : Report :=
  ⟨r.place? d, internal, d⟩

/-- The report of what has escaped. An exit is none. -/
def reportEscape (r : Reporter) : Escape → Option Report
  | .exit _ => none
  | .interrupt => some (r.report ⟨.general, "keyboard interrupt", none⟩ false)
  | .tooDeep => some (r.report ⟨.general, "maximum recursion depth exceeded", none⟩ false)
  | .reported diagnostic => some (r.report diagnostic false)
  | .internal label message =>
    some (r.report ⟨.general, "unknown error: '" ++ label ++ ": " ++ message ++ "'", none⟩ true)

/-- The code with which the process ends after an escape; it goes on if there is none. -/
def exitAfter (r : Reporter) : Escape → Option Int
  | .exit code => some code
  | _ => if r.fatal then some 1 else none

end Reporter

end Lox
