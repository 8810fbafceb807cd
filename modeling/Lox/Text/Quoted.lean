import Lox.Text.Printable

/-!
# Quoted texts

A text is shown between single quotes, or between double quotes when it holds a single quote and no
double one. Inside, the quote and the backslash are escaped by a backslash, line feed, carriage
return and tab have their letters, and whatever is not printable is written by its code in two, four
or eight lower-case hexadecimal digits.
-/
namespace Lox.Text

/-- The lower-case hexadecimal digits of `n`, filled up with zeros to `width` of them. -/
def hex (width n : Nat) : List Char :=
  let digits := Nat.toDigits 16 n
  List.replicate (width - digits.length) '0' ++ digits

/-- The quote that surrounds `text`. -/
def quoteFor (text : List Char) : Char :=
  if text.contains '\'' && !text.contains '"' then '"' else '\''

/-- One character as it stands between two marks `quote`. -/
def escape (quote c : Char) : List Char :=
  if c = quote || c = '\\' then ['\\', c]
  else if c = '\n' then ['\\', 'n']
  else if c = '\r' then ['\\', 'r']
  else if c = '\t' then ['\\', 't']
  else if isPrintable c then [c]
  else if c.toNat ≤ 0xFF then '\\' :: 'x' :: hex 2 c.toNat
  else if c.toNat ≤ 0xFFFF then '\\' :: 'u' :: hex 4 c.toNat
  else '\\' :: 'U' :: hex 8 c.toNat

/-- The text between quotes, with everything escaped that needs it. -/
def quoted (text : String) : String :=
  let quote := quoteFor text.toList
  String.ofList (quote :: text.toList.flatMap (escape quote) ++ [quote])

example : quoted "it's" = "\"it's\"" := by decide +kernel
example : quoted "\u00a0\n'\"" = "'\\xa0\\n\\'\"'" := by decide +kernel

end Lox.Text
