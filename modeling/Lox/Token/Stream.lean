import Lox.Token.Lexer

/-!
# Token streams

What a text delivers to its parser: the tokens and the lexical errors in the order of the text, and
then the end-of-input token for ever.
-/
namespace Lox

/-- The tokens and lexical errors still to come, and the line on which the text ends. -/
structure TokenStream where
  pending : List (Except LexicalError Token)
  lastLine : Int

namespace TokenStream

/-- The stream of a whole text. -/
def ofText (text : String) : TokenStream :=
  let chars := text.toList
  let (pending, lastLine) := Lexer.outcomes (chars.length + 1) ⟨1, chars⟩
  ⟨pending, lastLine⟩

/-- The token behind the last one. -/
def endToken (s : TokenStream) : Token :=
  ⟨.eof, "", none, s.lastLine⟩

/-- What comes next. -/
def head (s : TokenStream) : Except LexicalError Token :=
  s.pending.headD (.ok s.endToken)

/-- The stream behind what comes next. The end of input stays where it is. -/
def tail (s : TokenStream) : TokenStream :=
  { s with pending := s.pending.tail }

/-- The number of tokens and errors before the end of input. -/
def remaining (s : TokenStream) : Nat :=
  s.pending.length

/-- The line up to which the text has been read once the next token is known. -/
def line (s : TokenStream) : Int :=
  match s.head with
  | .ok token => token.line
  | .error error => error.line

@[simp] theorem head_nil (lastLine : Int) :
    head ⟨[], lastLine⟩ = .ok ⟨.eof, "", none, lastLine⟩ := rfl

@[simp] theorem head_cons (x : Except LexicalError Token) (xs : List (Except LexicalError Token))
    (lastLine : Int) : head ⟨x :: xs, lastLine⟩ = x := rfl

@[simp] theorem tail_nil (lastLine : Int) : tail ⟨[], lastLine⟩ = ⟨[], lastLine⟩ := rfl

@[simp] theorem tail_cons (x : Except LexicalError Token) (xs : List (Except LexicalError Token))
    (lastLine : Int) : tail ⟨x :: xs, lastLine⟩ = ⟨xs, lastLine⟩ := rfl

@[simp] theorem tail_lastLine (s : TokenStream) : s.tail.lastLine = s.lastLine := rfl

theorem remaining_tail (s : TokenStream) : s.tail.remaining = s.remaining - 1 := by
  simp [tail, remaining]

/-- What a text delivers up to its end-of-input token, and that token `extra` more times. -/
def listing (s : TokenStream) (extra : Nat) : List (Except LexicalError Token) :=
  s.pending ++ List.replicate (extra + 1) (.ok s.endToken)

end TokenStream

end Lox
