/-!
# Blank characters

The twenty-nine white space characters: those that separate tokens, and those that are taken off the
two ends of a line.
-/
namespace Lox.Text

/-- White space: the control characters that move the cursor or separate data, and the space
characters of every width. -/
def isBlank (c : Char) : Bool :=
  (0x09 ≤ c.toNat && c.toNat ≤ 0x0D) || (0x1C ≤ c.toNat && c.toNat ≤ 0x20) || c.toNat == 0x85 ||
  c.toNat == 0xA0 || c.toNat == 0x1680 || (0x2000 ≤ c.toNat && c.toNat ≤ 0x200A) ||
  c.toNat == 0x2028 || c.toNat == 0x2029 || c.toNat == 0x202F || c.toNat == 0x205F ||
  c.toNat == 0x3000

theorem isBlank_newline : isBlank '\n' = true := by decide

/-- A text without its leading blanks. -/
def stripLeft (text : List Char) : List Char :=
  text.dropWhile isBlank

/-- A text without its trailing blanks. -/
def stripRight (text : List Char) : List Char :=
  (text.reverse.dropWhile isBlank).reverse

/-- A text without the blanks at its two ends. -/
def strip (text : List Char) : List Char :=
  stripRight (stripLeft text)

@[simp] theorem strip_nil : strip [] = [] := rfl

end Lox.Text
