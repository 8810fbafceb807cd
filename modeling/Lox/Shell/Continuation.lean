/-!
# Unfinished lines

A line typed into the shell is continued while it leaves something open: a string, or more opening
than closing braces and parentheses. What stands in strings and comments does not count, and the
closing ones count even where nothing is open.
-/
namespace Lox.Shell

/-- What a place of a line is part of. -/
inductive Region where
  | code
  | string
  | comment
  deriving DecidableEq, Repr

/-- Whether a text leaves something open, if it begins inside `region` with `balance` braces and
parentheses open before it. -/
def leavesOpenFrom : Region → Int → List Char → Bool
  | region, balance, [] => decide (0 < balance) || region = .string
  | .string, balance, c :: rest =>
    leavesOpenFrom (if c = '"' then .code else .string) balance rest
  | .comment, balance, c :: rest =>
    leavesOpenFrom (if c = '\n' then .code else .comment) balance rest
  | .code, balance, '/' :: '/' :: rest => leavesOpenFrom .comment balance rest
  | .code, balance, c :: rest =>
    if c = '"' then leavesOpenFrom .string balance rest
    else if c = '(' || c = '{' then leavesOpenFrom .code (balance + 1) rest
    else if c = ')' || c = '}' then leavesOpenFrom .code (balance - 1) rest
    else leavesOpenFrom .code balance rest

/-- Whether a text leaves a string, a brace or a parenthesis open. -/
def leavesOpen (text : String) : Bool :=
  leavesOpenFrom .code 0 text.toList

/-- A text that has been typed, as the shell goes on with it, and whether it has to be continued. -/
def checked (text : String) : String × Bool :=
  (text, leavesOpen text)

example : leavesOpen "fun f() \x7b" = true := by decide +kernel
example : leavesOpen ") (" = false := by decide +kernel
example : leavesOpen "print \"a // (" = true := by decide +kernel
example : leavesOpen "1; // (" = false := by decide +kernel

end Lox.Shell
