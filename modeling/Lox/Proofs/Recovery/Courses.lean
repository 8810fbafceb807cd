import Lox.Proofs.Outcome
import Lox.Syntax.Parser

/-!
# The course of a reader

A reader asks its stream for one thing after the other: it looks at the next token or takes it, and
what it asks next depends on the answers. The course of a reader is the tree of these questions. So
it can be followed on anything that answers them, such as a scanner with a buffer in front of it.
-/
namespace Lox
open Outcome

/-- What a reader asks for, and what it does with each answer. -/
inductive Course (α : Type) where
  | done (a : α)
  | fail (error : SyntaxError)
  | peek (next : Token → Course α)
  | pop (next : Token → Course α)
  /-- Asks for the number of tokens and errors before the end of the input. -/
  | remaining (next : Nat → Course α)
  /-- Asks for the line that has been reached. -/
  | line (next : Int → Course α)

namespace Course
variable {α β : Type}

/-- The course followed on a stream. -/
def onStream : Course α → Parser α
  | done a => pure a
  | fail error => throw (.syntactic error)
  | peek next => do (next (← Parser.peek)).onStream
  | pop next => do (next (← Parser.pop)).onStream
  | remaining next => fun s => (next s.remaining).onStream s
  | line next => fun s => (next s.line).onStream s

/-- One course behind another. -/
def bind (f : α → Course β) : Course α → Course β
  | done a => f a
  | fail error => fail error
  | peek next => peek fun token => (next token).bind f
  | pop next => pop fun token => (next token).bind f
  | remaining next => remaining fun count => (next count).bind f
  | line next => line fun n => (next n).bind f

theorem onStream_bind (f : α → Course β) (c : Course α) :
    (c.bind f).onStream = c.onStream >>= fun a => (f a).onStream := by
  funext s
  induction c generalizing s with
  | done a => rfl
  | fail error => rfl
  | peek next ih | pop next ih =>
    simp only [bind, onStream, bind_apply]
    split
    · exact ih _ _
    · rfl
  | remaining next ih | line next ih => exact ih _ s

/-- A loop over steps with at most `fuel` rounds. -/
def repeatUpTo (step : β → Course (Option β)) : Nat → β → Course β
  | 0, b => done b
  | fuel + 1, b => (step b).bind fun next => next.elim (done b) (repeatUpTo step fuel)

theorem onStream_repeatUpTo (step : β → Course (Option β)) (fuel : Nat) (b : β) :
    (repeatUpTo step fuel b).onStream = Parser.repeatUpTo (fun b => (step b).onStream) fuel b := by
  induction fuel generalizing b with
  | zero => rfl
  | succ fuel ih =>
    rw [repeatUpTo, onStream_bind, Parser.repeatUpTo]
    congr 1
    funext next
    cases next with
    | none => rfl
    | some next => exact ih next

end Course

end Lox
