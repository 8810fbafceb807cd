import Lox.Session.Basic

/-!
# Listing a source instead of running it

A session can write a source out: as program text in standard layout, or as the list of its tokens.
Errors of the text are reported as in a run.
-/
namespace Lox.Session

/-- Writes what can be read of a list of statements. The status is that of the worst statement. -/
def formatFrom (limits : Limits) : List (Except ParseError (Stmt Unit)) → Status → SessionM Status
  | [], status => return status
  | .error error :: rest, _ => do
    report error.diagnostic
    formatFrom limits rest .grammarError
  | .ok .endMarker :: _, status => return status
  | .ok statement :: rest, status => do
    match statement.format limits.writing with
    | .error fault => throw (.fault fault)
    | .ok text =>
      print text
      formatFrom limits rest status

/-- Writes a source in standard layout. -/
def format (limits : Limits) (source : String) : SessionM Status := do
  quoteFrom source
  formatFrom limits ((TokenStream.ofText source).statements limits.nesting) .ok

/-- Writes a list of tokens, each behind its line. -/
def tokenizeFrom : List (Except LexicalError Token) → Status → SessionM Status
  | [], status => return status
  | .error error :: rest, _ => do
    report error.diagnostic
    tokenizeFrom rest .grammarError
  | .ok token :: rest, status => do
    print (toString token.line ++ ": " ++ token.describe)
    tokenizeFrom rest status

/-- Writes the tokens of a source. -/
def tokenize (source : String) : SessionM Status := do
  quoteFrom source
  tokenizeFrom ((TokenStream.ofText source).listing 0) .ok

end Lox.Session
