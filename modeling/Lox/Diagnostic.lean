/-!
# Diagnostics

What every error comes down to when it is reported: the stage that found it, its wording, and the
line it blames when one is known.
-/
namespace Lox

/-- The stage that an error comes from. -/
inductive Stage where
  | general
  | lexical
  | syntactic
  | resolution
  | runtime
  deriving DecidableEq, Repr

/-- How an error of this stage is introduced. -/
def Stage.label : Stage → String
  | general => "error"
  | lexical => "lexical error"
  | syntactic => "syntax error"
  | resolution => "resolution error"
  | runtime => "runtime error"

/-- An error as it is reported. -/
structure Diagnostic where
  stage : Stage
  message : String
  line : Option Int
  deriving DecidableEq, Repr

/-- The one-line text of a diagnostic. -/
def Diagnostic.text (d : Diagnostic) : String :=
  match d.line with
  | none => d.stage.label ++ ": " ++ d.message
  | some line => d.stage.label ++ " on line " ++ toString line ++ ": " ++ d.message

end Lox
