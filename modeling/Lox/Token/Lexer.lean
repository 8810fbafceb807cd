import Lox.Decimal.Numeral
import Lox.Diagnostic
import Lox.Text.Blank
import Lox.Text.Letter
import Lox.Token.Basic

/-!
# From text to tokens

At each place the longest token is taken. Blanks, and comments from `//` to the end of their line,
are skipped before it. A place where no token starts gives an error and is passed over: a single
character, a numeral too great for a double, or everything behind a quote that is never closed.
Lines are counted by line feeds, and a token belongs to the line on which it ends.
-/
namespace Lox

/-- Why a place of the text is no token. -/
inductive LexicalError.Cause where
  | unexpectedCharacter
  | unterminatedString
  | invalidNumber
  deriving DecidableEq, Repr

/-- A place of the text that is no token. -/
structure LexicalError where
  cause : LexicalError.Cause
  line : Int
  deriving DecidableEq, Repr

/-- The wording of a lexical error. -/
def LexicalError.Cause.message : LexicalError.Cause → String
  | unexpectedCharacter => "unexpected character"
  | unterminatedString => "unterminated string"
  | invalidNumber => "invalid number"

def LexicalError.diagnostic (e : LexicalError) : Diagnostic :=
  ⟨.lexical, e.cause.message, some e.line⟩

namespace Lexer

/-- The ten decimal digits. -/
def isDigit (c : Char) : Bool :=
  '0'.toNat ≤ c.toNat && c.toNat ≤ '9'.toNat

/-- The characters that an identifier may start with: letters of any script and the underscore. -/
def isWordStart (c : Char) : Bool :=
  Text.isLetter c || c = '_'

/-- The characters that an identifier goes on with. -/
def isWordPart (c : Char) : Bool :=
  isWordStart c || isDigit c

/-- The words that are no identifiers. -/
def keywords : List (String × Kind) :=
  [("and", .kwAnd), ("assert", .kwAssert), ("class", .kwClass), ("else", .kwElse),
    ("false", .kwFalse), ("for", .kwFor), ("fun", .kwFun), ("if", .kwIf), ("nil", .kwNil),
    ("or", .kwOr), ("print", .kwPrint), ("return", .kwReturn), ("super", .kwSuper),
    ("this", .kwThis), ("true", .kwTrue), ("var", .kwVar), ("while", .kwWhile)]

/-- The kind of a word: a keyword's own kind, or an identifier. -/
def wordKind (word : String) : Kind :=
  (keywords.lookup word).getD .identifier

/-- The tokens of one character. -/
def single? : Char → Option Kind
  | '(' => some .leftParen
  | ')' => some .rightParen
  | '{' => some .leftBrace
  | '}' => some .rightBrace
  | ',' => some .comma
  | '.' => some .dot
  | '-' => some .minus
  | '+' => some .plus
  | ';' => some .semicolon
  | '*' => some .star
  | '/' => some .slash
  | _ => none

/-- The operators that an equals sign may follow: the kind alone, and the kind with it. -/
def double? : Char → Option (Kind × Kind)
  | '!' => some (.bang, .bangEqual)
  | '=' => some (.equal, .equalEqual)
  | '<' => some (.less, .lessEqual)
  | '>' => some (.greater, .greaterEqual)
  | _ => none

/-- What was found at a place of the text: the characters taken, those behind them, and the kind
and literal of the token or the reason why it is none. -/
structure Span where
  lexeme : List Char
  rest : List Char
  found : Except LexicalError.Cause (Kind × Option Atom)

/-- A string, behind its opening quote. -/
def string (text : List Char) : Span :=
  let inside := text.takeWhile (· ≠ '"')
  match text.dropWhile (· ≠ '"') with
  | [] => ⟨'"' :: inside, [], .error .unterminatedString⟩
  | quote :: rest =>
    ⟨'"' :: inside ++ [quote], rest, .ok (.string, some (.string (String.ofList inside)))⟩

/-- The fraction of a numeral, its digits without the point, and the text behind it. A point belongs
to the numeral only if a digit follows. -/
def fraction : List Char → List Char × List Char
  | '.' :: c :: rest =>
    if isDigit c then (c :: rest.takeWhile isDigit, rest.dropWhile isDigit)
    else ([], '.' :: c :: rest)
  | text => ([], text)

/-- A numeral that stands for a number, or is too great for one. -/
def numeral (lexeme rest : List Char) : Option Float → Span
  | none => ⟨lexeme, rest, .error .invalidNumber⟩
  | some value => ⟨lexeme, rest, .ok (.number, some (.number value))⟩

/-- A numeral, from its first digit on. -/
def number (text : List Char) : Span :=
  let whole := text.takeWhile isDigit
  let behind := fraction (text.dropWhile isDigit)
  let lexeme := if behind.1.isEmpty then whole else whole ++ '.' :: behind.1
  numeral lexeme behind.2 (Decimal.ofNumeral whole behind.1)

/-- A keyword or an identifier, from its first letter on. -/
def word (text : List Char) : Span :=
  let lexeme := text.takeWhile isWordPart
  ⟨lexeme, text.dropWhile isWordPart, .ok (wordKind (String.ofList lexeme), none)⟩

/-- What is found at a place where no blank and no comment starts. -/
def span (c : Char) (rest : List Char) : Span :=
  match double? c with
  | some (alone, withEqual) =>
    match rest with
    | '=' :: rest => ⟨[c, '='], rest, .ok (withEqual, none)⟩
    | rest => ⟨[c], rest, .ok (alone, none)⟩
  | none =>
    match single? c with
    | some kind => ⟨[c], rest, .ok (kind, none)⟩
    | none =>
      if c = '"' then string rest
      else if isDigit c then number (c :: rest)
      else if isWordStart c then word (c :: rest)
      else ⟨[c], rest, .error .unexpectedCharacter⟩

/-- A place in the text: the line it is on, and the characters from there on. -/
structure Place where
  line : Int
  rest : List Char
  deriving DecidableEq, Repr

/-- The place behind the blanks and comments at the start of a text that begins on `line`, in a
comment or not. -/
def skip (line : Int) (inComment : Bool) : List Char → Place
  | [] => ⟨line, []⟩
  | '\n' :: rest => skip (line + 1) false rest
  | '/' :: '/' :: rest => skip line true rest
  | c :: rest =>
    if inComment then skip line true rest
    else if Text.isBlank c then skip line false rest
    else ⟨line, c :: rest⟩

/-- The token of a span that ends on `line`. -/
def Span.outcome (s : Span) (line : Int) : Except LexicalError Token :=
  match s.found with
  | .error cause => .error ⟨cause, line⟩
  | .ok (kind, literal) => .ok ⟨kind, String.ofList s.lexeme, literal, line⟩

/-- The tokens and errors of the text from a place on, and the line on which the text ends. Every
span takes a character, so that `fuel` is enough when it is not below the length of the text. -/
def outcomes : Nat → Place → List (Except LexicalError Token) × Int
  | 0, place => ([], place.line)
  | fuel + 1, place =>
    match skip place.line false place.rest with
    | ⟨line, []⟩ => ([], line)
    | ⟨line, c :: rest⟩ =>
      let s := span c rest
      let line := line + s.lexeme.count '\n'
      let (later, lastLine) := outcomes fuel ⟨line, s.rest⟩
      (s.outcome line :: later, lastLine)

end Lexer

end Lox
