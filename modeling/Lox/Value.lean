import Lox.Syntax.Sites

/-!
# Values

What programs compute with: atoms, functions declared in a program together with the frame they were
declared in, and functions that come with the language.
-/
namespace Lox

/-- The number of a frame, in which variables live while a block or a call is executed. -/
abbrev FrameId := Nat

/-- A declared function and the frame that its body sees around its own. -/
structure Closure where
  site : Site
  name : Token
  params : List Token
  body : List (Stmt Site)
  frame : FrameId

/-- The functions that come with the language. -/
inductive Native where
  | clock
  deriving DecidableEq, Repr

/-- The values of a program. -/
inductive Value where
  | atom (value : Atom)
  | closure (function : Closure)
  | native (function : Native)

namespace Value

/-- The value of a statement that has none to give. -/
def nil : Value := .atom .nil

def bool (b : Bool) : Value := .atom (.bool b)

def number (x : Float) : Value := .atom (.number x)

def string (s : String) : Value := .atom (.string s)

/-- Nil and false count as false, everything else as true. -/
def isTruthy : Value → Bool
  | atom value => value.isTruthy
  | _ => true

/-- The text that `print` writes. -/
def shown : Value → String
  | atom value => value.shown
  | closure function => "<fn " ++ function.name.lexeme ++ ">"
  | native _ => "<native fn>"

/-- Equality of values. Functions are equal when they stem from one execution of one declaration. A
frame binds a name once, so there is only one such execution for a declaration and a frame. -/
def equals : Value → Value → Bool
  | atom a, atom b => a.equals b
  | closure f, closure g => f.site == g.site && f.frame == g.frame
  | native f, native g => f == g
  | _, _ => false

/-- The number of arguments that a function takes. -/
def arity? : Value → Option Nat
  | atom _ => none
  | closure function => some function.params.length
  | native .clock => some 0

@[simp] theorem isTruthy_nil : isTruthy nil = false := rfl

@[simp] theorem isTruthy_bool (b : Bool) : isTruthy (bool b) = b := rfl

end Value

end Lox
