import Lox.Atom

/-!
# Tokens

A token has a kind, the text it was read from, the literal that a number or a string stands for, and
the line on which it ends.
-/
namespace Lox

/-- The kinds of tokens. -/
inductive Kind where
  | leftParen | rightParen | leftBrace | rightBrace
  | comma | dot | minus | plus | semicolon | slash | star
  | bang | bangEqual | equal | equalEqual | greater | greaterEqual | less | lessEqual
  | identifier | string | number
  | kwAnd | kwAssert | kwClass | kwElse | kwFalse | kwFor | kwFun | kwIf | kwNil | kwOr | kwPrint
  | kwReturn | kwSuper | kwThis | kwTrue | kwVar | kwWhile
  | eof
  deriving DecidableEq, Repr

namespace Kind

/-- The name of a kind in listings. -/
def name : Kind → String
  | leftParen => "LEFT_PAREN"
  | rightParen => "RIGHT_PAREN"
  | leftBrace => "LEFT_BRACE"
  | rightBrace => "RIGHT_BRACE"
  | comma => "COMMA"
  | dot => "DOT"
  | minus => "MINUS"
  | plus => "PLUS"
  | semicolon => "SEMICOLON"
  | slash => "SLASH"
  | star => "STAR"
  | bang => "BANG"
  | bangEqual => "BANG_EQUAL"
  | equal => "EQUAL"
  | equalEqual => "EQUAL_EQUAL"
  | greater => "GREATER"
  | greaterEqual => "GREATER_EQUAL"
  | less => "LESS"
  | lessEqual => "LESS_EQUAL"
  | identifier => "IDENTIFIER"
  | string => "STRING"
  | number => "NUMBER"
  | kwAnd => "AND"
  | kwAssert => "ASSERT"
  | kwClass => "CLASS"
  | kwElse => "ELSE"
  | kwFalse => "FALSE"
  | kwFor => "FOR"
  | kwFun => "FUN"
  | kwIf => "IF"
  | kwNil => "NIL"
  | kwOr => "OR"
  | kwPrint => "PRINT"
  | kwReturn => "RETURN"
  | kwSuper => "SUPER"
  | kwThis => "THIS"
  | kwTrue => "TRUE"
  | kwVar => "VAR"
  | kwWhile => "WHILE"
  | eof => "EOF"

/-- Every kind once, in the order of the listing above. -/
def all : List Kind :=
  [leftParen, rightParen, leftBrace, rightBrace, comma, dot, minus, plus, semicolon, slash, star,
    bang, bangEqual, equal, equalEqual, greater, greaterEqual, less, lessEqual, identifier, string,
    number, kwAnd, kwAssert, kwClass, kwElse, kwFalse, kwFor, kwFun, kwIf, kwNil, kwOr, kwPrint,
    kwReturn, kwSuper, kwThis, kwTrue, kwVar, kwWhile, eof]

/-- A kind in listings of trees: its name, and its number in the order of `all`. -/
def describe (kind : Kind) : String :=
  "<TokenType." ++ kind.name ++ ": " ++ toString (all.idxOf kind + 1) ++ ">"

/-- The kind with a given name. -/
def ofName? (name : String) : Option Kind :=
  all.find? fun kind => kind.name == name

end Kind

/-- A token of program text. -/
structure Token where
  kind : Kind
  lexeme : String
  literal : Option Atom
  /-- The line on which the token ends. A token that was not read from a text may claim any. -/
  line : Int

/-- A token in listings: its kind, its lexeme in quotes, and its literal if it has one. -/
def Token.describe (t : Token) : String :=
  let head := t.kind.name ++ " " ++ Text.quoted t.lexeme
  match t.literal with
  | none => head
  | some literal => head ++ " " ++ literal.describe

end Lox
