import Lox.Decimal.Layout
import Lox.Text.Quoted

/-!
# Atoms

The values that can be written down as a literal: nil, the two booleans, numbers and strings. An
atom has three texts. It is described in listings of tokens and trees, shown by `print`, and spelled
in program text.
-/
namespace Lox

/-- A value without identity. -/
inductive Atom where
  | nil
  | bool (value : Bool)
  | number (value : Float)
  | string (value : String)

namespace Atom

/-- The text in listings, where a string is told from other words by its quotes. -/
def describe : Atom → String
  | nil => "None"
  | bool true => "True"
  | bool false => "False"
  | number value => Decimal.Layout.exact.text value
  | string value => Text.quoted value

/-- The text that `print` writes. -/
def shown : Atom → String
  | nil => "nil"
  | bool true => "true"
  | bool false => "false"
  | number value => Decimal.Layout.shown.text value
  | string value => value

/-- The literal of program text that stands for the atom. A string has no escapes. -/
def source : Atom → String
  | nil => "nil"
  | bool true => "true"
  | bool false => "false"
  | number value => Decimal.Layout.source.text value
  | string value => "\"" ++ value ++ "\""

/-- Only nil and false count as false. -/
def isTruthy : Atom → Bool
  | nil => false
  | bool value => value
  | _ => true

/-- Whether the atom is a number. -/
def isNumber : Atom → Bool
  | number _ => true
  | _ => false

/-- Equality of atoms: those of different types differ, and numbers are compared as numbers, so that
the two zeros are equal and a NaN differs from itself. -/
def equals : Atom → Atom → Bool
  | nil, nil => true
  | bool a, bool b => a == b
  | number a, number b => a == b
  | string a, string b => a == b
  | _, _ => false

@[simp] theorem isTruthy_nil : isTruthy nil = false := rfl
@[simp] theorem isTruthy_bool (b : Bool) : isTruthy (bool b) = b := rfl
@[simp] theorem isTruthy_number (x : Float) : isTruthy (number x) = true := rfl
@[simp] theorem isTruthy_string (s : String) : isTruthy (string s) = true := rfl

end Atom

end Lox
