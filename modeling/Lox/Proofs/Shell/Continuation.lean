import Lox.Shell.Continuation
import Lox.Text.Blank

/-!
# What a text leaves open

The beginning of a text acts on what follows it only through the region and the balance that it
leads to. So two lines behind it are alike if they are alike in every region, and blanks around a
line break leave nothing open.
-/
namespace Lox.Shell
variable {c : Char} {rest tail blanks : List Char} {region : Region} {balance : Int}

theorem leavesOpenFrom_string_cons :
    leavesOpenFrom .string balance (c :: rest) =
      leavesOpenFrom (if c = '"' then .code else .string) balance rest := by
  rw [leavesOpenFrom]

theorem leavesOpenFrom_comment_cons :
    leavesOpenFrom .comment balance (c :: rest) =
      leavesOpenFrom (if c = '\n' then .code else .comment) balance rest := by
  rw [leavesOpenFrom]

/-- A character of code acts by itself, unless it begins a comment with the one behind it. -/
theorem leavesOpenFrom_code_cons (h : c = '/' → rest.head? ≠ some '/') :
    leavesOpenFrom .code balance (c :: rest) =
      if c = '"' then leavesOpenFrom .string balance rest
      else if c = '(' || c = '{' then leavesOpenFrom .code (balance + 1) rest
      else if c = ')' || c = '}' then leavesOpenFrom .code (balance - 1) rest
      else leavesOpenFrom .code balance rest := by
  rw [leavesOpenFrom]
  rintro behind hc rfl
  exact h hc rfl

/-- A text leads to one region and one balance, whatever follows. What follows must not start with a
slash, which could begin a comment together with the last character of the text. -/
theorem exists_leavesOpenFrom_append (region : Region) (balance : Int) (text : List Char) :
    ∃ region' balance', ∀ tail : List Char, tail.head? ≠ some '/' →
      leavesOpenFrom region balance (text ++ tail) = leavesOpenFrom region' balance' tail := by
  -- what is known of the end of the text is that the code character at hand is no half of a comment
  have alone {c : Char} {rest tail : List Char}
      (hcode : ∀ behind, c = '/' → rest = '/' :: behind → False) (htail : tail.head? ≠ some '/') :
      c = '/' → (rest ++ tail).head? ≠ some '/' := by
    intro hc
    cases rest with
    | nil => exact htail
    | cons d behind =>
      intro hd
      exact hcode behind hc (by rw [Option.some.inj hd])
  fun_induction leavesOpenFrom region balance text with
  | case1 region balance => exact ⟨region, balance, fun tail _ => rfl⟩
  | case2 balance c rest ih =>
    obtain ⟨region', balance', ih⟩ := ih
    refine ⟨region', balance', fun tail htail => ?_⟩
    rw [List.cons_append, leavesOpenFrom_string_cons]
    exact ih tail htail
  | case3 balance c rest ih =>
    obtain ⟨region', balance', ih⟩ := ih
    refine ⟨region', balance', fun tail htail => ?_⟩
    rw [List.cons_append, leavesOpenFrom_comment_cons]
    exact ih tail htail
  | case4 balance rest ih =>
    obtain ⟨region', balance', ih⟩ := ih
    refine ⟨region', balance', fun tail htail => ?_⟩
    rw [List.cons_append, List.cons_append, leavesOpenFrom]
    exact ih tail htail
  | case5 balance rest hcode ih =>
    obtain ⟨region', balance', ih⟩ := ih
    refine ⟨region', balance', fun tail htail => ?_⟩
    rw [List.cons_append, leavesOpenFrom_code_cons (alone hcode htail), if_pos rfl]
    exact ih tail htail
  | case6 balance c rest hcode hquote hopening ih =>
    obtain ⟨region', balance', ih⟩ := ih
    refine ⟨region', balance', fun tail htail => ?_⟩
    rw [List.cons_append, leavesOpenFrom_code_cons (alone hcode htail), if_neg hquote,
      if_pos hopening]
    exact ih tail htail
  | case7 balance c rest hcode hquote hopening hclosing ih =>
    obtain ⟨region', balance', ih⟩ := ih
    refine ⟨region', balance', fun tail htail => ?_⟩
    rw [List.cons_append, leavesOpenFrom_code_cons (alone hcode htail), if_neg hquote,
      if_neg hopening, if_pos hclosing]
    exact ih tail htail
  | case8 balance c rest hcode hquote hopening hclosing ih =>
    obtain ⟨region', balance', ih⟩ := ih
    refine ⟨region', balance', fun tail htail => ?_⟩
    rw [List.cons_append, leavesOpenFrom_code_cons (alone hcode htail), if_neg hquote,
      if_neg hopening, if_neg hclosing]
    exact ih tail htail

/-- A blank in code opens nothing. -/
theorem leavesOpenFrom_code_blank (hc : Text.isBlank c) :
    leavesOpenFrom .code balance (c :: rest) = leavesOpenFrom .code balance rest := by
  have other {d : Char} (hd : Text.isBlank d = false) : c ≠ d := by
    rintro rfl
    rw [hc] at hd
    cases hd
  rw [leavesOpenFrom_code_cons fun h => absurd h (other (by decide))]
  simp [other (d := '"') (by decide), other (d := '(') (by decide), other (d := '{') (by decide),
    other (d := ')') (by decide), other (d := '}') (by decide)]

/-- Blanks before a text open nothing. -/
theorem leavesOpenFrom_stripLeft (text : List Char) :
    leavesOpenFrom .code balance (Text.stripLeft text ++ tail) =
      leavesOpenFrom .code balance (text ++ tail) := by
  induction text with
  | nil => rfl
  | cons c rest ih =>
    by_cases hc : Text.isBlank c
    · rw [Text.stripLeft, List.dropWhile_cons_of_pos hc, List.cons_append,
        leavesOpenFrom_code_blank hc]
      exact ih
    · rw [Text.stripLeft, List.dropWhile_cons_of_neg hc]

/-- Blanks leave a text where it is, except that a line break among them ends a comment. -/
theorem exists_leavesOpenFrom_blanks (hblanks : ∀ c ∈ blanks, Text.isBlank c) (region : Region)
    (balance : Int) :
    ∃ region', (region' = region ∨ region = .comment ∧ region' = .code) ∧
      ∀ tail, leavesOpenFrom region balance (blanks ++ tail) =
        leavesOpenFrom region' balance tail := by
  induction blanks generalizing region with
  | nil => exact ⟨region, .inl rfl, fun tail => rfl⟩
  | cons c rest ih =>
    obtain ⟨hc, hrest⟩ := List.forall_mem_cons.1 hblanks
    cases region with
    | code =>
      obtain ⟨region', hregion, htail⟩ := ih hrest .code
      exact ⟨region', hregion, fun tail => (leavesOpenFrom_code_blank hc).trans (htail tail)⟩
    | string =>
      have hquote : c ≠ '"' := by
        rintro rfl
        cases hc
      obtain ⟨region', hregion, htail⟩ := ih hrest .string
      refine ⟨region', hregion, fun tail => ?_⟩
      rw [List.cons_append, leavesOpenFrom_string_cons, if_neg hquote, htail]
    | comment =>
      by_cases hnewline : c = '\n'
      · obtain ⟨region', hregion, htail⟩ := ih hrest .code
        refine ⟨region', .inr ⟨rfl, by simpa using hregion⟩, fun tail => ?_⟩
        rw [List.cons_append, leavesOpenFrom_comment_cons, if_pos hnewline, htail]
      · obtain ⟨region', hregion, htail⟩ := ih hrest .comment
        refine ⟨region', hregion, fun tail => ?_⟩
        rw [List.cons_append, leavesOpenFrom_comment_cons, if_neg hnewline, htail]

/-- Blanks before a line break leave nothing open, not even where they end a comment. -/
theorem leavesOpenFrom_blanks_newline (hblanks : ∀ c ∈ blanks, Text.isBlank c) :
    leavesOpenFrom region balance (blanks ++ '\n' :: tail) =
      leavesOpenFrom region balance ('\n' :: tail) := by
  obtain ⟨region', rfl | ⟨rfl, rfl⟩, htail⟩ := exists_leavesOpenFrom_blanks hblanks region balance
  · exact htail _
  · rw [htail, leavesOpenFrom_code_blank Text.isBlank_newline, leavesOpenFrom_comment_cons,
      if_pos rfl]

/-- Blanks behind a text close nothing. -/
theorem leavesOpenFrom_blanks (hblanks : ∀ c ∈ blanks, Text.isBlank c) :
    leavesOpenFrom region balance blanks = leavesOpenFrom region balance [] := by
  obtain ⟨region', rfl | ⟨rfl, rfl⟩, htail⟩ := exists_leavesOpenFrom_blanks hblanks region balance
  · rw [← htail [], List.append_nil]
  · rw [← List.append_nil blanks, htail []]
    simp [leavesOpenFrom]

end Lox.Shell
