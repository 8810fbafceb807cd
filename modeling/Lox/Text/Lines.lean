import Lox.Text.Blank

/-!
# Lines of a text

Two notions of a line live side by side. Tokens count line feeds only. Error reports quote from the
list made here, where every line boundary ends a line and a carriage return with its line feed is
one boundary; a boundary at the very end starts no further line.
-/
namespace Lox.Text

/-- The characters that end a line. -/
def isLineBreak (c : Char) : Bool :=
  (0x0A ≤ c.toNat && c.toNat ≤ 0x0D) || (0x1C ≤ c.toNat && c.toNat ≤ 0x1E) || c.toNat == 0x85 ||
  c.toNat == 0x2028 || c.toNat == 0x2029

/-- The lines of a text of whose current line the characters `start` have been read, last first. -/
private def linesFrom (start : List Char) : List Char → List (List Char)
  | [] => if start.isEmpty then [] else [start.reverse]
  | '\r' :: '\n' :: rest => start.reverse :: linesFrom [] rest
  | c :: rest =>
    if isLineBreak c then start.reverse :: linesFrom [] rest else linesFrom (c :: start) rest

/-- The lines of `text` without their boundaries. -/
def lines (text : List Char) : List (List Char) :=
  linesFrom [] text

example : lines "a\r\nb\rc\n\n".toList = ["a".toList, "b".toList, "c".toList, []] := by decide
example : lines [] = [] := by decide

section Boundaries
variable {front rest : List Char} {c : Char}

private theorem linesFrom_append (h : ∀ d ∈ front, isLineBreak d = false) (start : List Char) :
    linesFrom start (front ++ rest) = linesFrom (front.reverse ++ start) rest := by
  induction front generalizing start with
  | nil => rfl
  | cons d front ih =>
    obtain ⟨hd, hfront⟩ := List.forall_mem_cons.mp h
    have hreturn : d ≠ '\r' := by
      rintro rfl
      exact absurd hd (by decide)
    rw [List.cons_append, linesFrom, if_neg (by simp [hd]), ih hfront]
    · simp
    · exact fun _ heq => absurd heq hreturn

/-- A text without boundaries is one line, unless it is empty. -/
theorem lines_of_forall (h : ∀ d ∈ front, isLineBreak d = false) :
    lines front = if front.isEmpty then [] else [front] := by
  have hfrom : linesFrom [] (front ++ []) = linesFrom (front.reverse ++ []) [] :=
    linesFrom_append h []
  rw [List.append_nil, List.append_nil] at hfrom
  rw [lines, hfrom, linesFrom, List.isEmpty_reverse, List.reverse_reverse]

/-- The first boundary ends the first line. -/
theorem lines_append_break (h : ∀ d ∈ front, isLineBreak d = false) (hc : isLineBreak c = true)
    (hpair : c = '\r' → rest.head? ≠ some '\n') :
    lines (front ++ c :: rest) = front :: lines rest := by
  rw [lines, linesFrom_append h, List.append_nil, linesFrom, if_pos hc, List.reverse_reverse]
  · rfl
  · rintro rest' rfl rfl
    exact hpair rfl rfl

/-- So does a carriage return with its line feed. -/
theorem lines_append_pair (h : ∀ d ∈ front, isLineBreak d = false) :
    lines (front ++ '\r' :: '\n' :: rest) = front :: lines rest := by
  rw [lines, linesFrom_append h, List.append_nil, linesFrom, List.reverse_reverse]
  rfl

end Boundaries

/-- The text with each carriage return, and each pair of it with a line feed, made a line feed. -/
def unifyNewlines : List Char → List Char
  | [] => []
  | '\r' :: '\n' :: rest => '\n' :: unifyNewlines rest
  | c :: rest => (if c = '\r' then '\n' else c) :: unifyNewlines rest

/-- The pieces of `text` between line feeds, which are the only boundaries here. A line feed at the
very end starts no further piece. -/
def splitNewlines (text : List Char) : List (List Char) :=
  go [] text
where
  go (start : List Char) : List Char → List (List Char)
    | [] => if start.isEmpty then [] else [start.reverse]
    | c :: rest => if c = '\n' then start.reverse :: go [] rest else go (c :: start) rest

/-- A text that is broken by line feeds only has the same lines in both senses. -/
theorem lines_eq_splitNewlines {text : List Char}
    (h : ∀ c ∈ text, isLineBreak c = true → c = '\n') : lines text = splitNewlines text := by
  have hfrom : ∀ start, linesFrom start text = splitNewlines.go start text := by
    induction text with
    | nil => exact fun _ => rfl
    | cons c rest ih =>
      have hrest := ih fun d hd => h d (List.mem_cons_of_mem _ hd)
      intro start
      by_cases hfeed : c = '\n'
      · subst hfeed
        rw [linesFrom, if_pos (by decide), splitNewlines.go, if_pos rfl, hrest]
        simp
      · have hplain : isLineBreak c ≠ true := fun hbreak => hfeed (h c List.mem_cons_self hbreak)
        have hreturn : c ≠ '\r' := fun heq => hplain (by rw [heq]; decide)
        rw [linesFrom, if_neg hplain, splitNewlines.go, if_neg hfeed, hrest]
        exact fun _ heq => absurd heq hreturn
  exact hfrom []

end Lox.Text
