import Mathlib.Data.List.TakeWhile
import Mathlib.Order.Basic
import Lox.Text.Lines

/-!
# Rows and lines

The scanner counts line feeds, so for it a text consists of rows. A report quotes from the lines of
the text, which may end within a row. As long as no row is broken the two counts agree; behind a row
that is broken there are too many lines, and the line of a number is a piece of a row before.
-/
namespace Lox.Text
variable {text front row rest piece : List Char} {c : Char} {index : Nat}

/-- What stands between the line feeds of a text, before the first and behind the last. -/
def rows (text : List Char) : List (List Char) :=
  text.splitOn '\n'

/-- The text before its first line boundary. -/
def lead (text : List Char) : List Char :=
  text.takeWhile (!isLineBreak ·)

/-- The text from its first line boundary on. -/
def remainder (text : List Char) : List Char :=
  text.dropWhile (!isLineBreak ·)

/-- No line ends within a row, but for a carriage return that belongs to the line feed behind it. -/
def Unbroken (row : List Char) : Prop :=
  remainder row = [] ∨ remainder row = ['\r']

instance (row : List Char) : Decidable (Unbroken row) := by
  unfold Unbroken
  infer_instance

/-- The lines that a row makes when a line feed ends it. -/
def pieces (row : List Char) : List (List Char) :=
  lines (row ++ ['\n'])

/-! ## The first boundary -/

theorem lead_append_remainder (text : List Char) : lead text ++ remainder text = text :=
  List.takeWhile_append_dropWhile

theorem isLineBreak_of_mem_lead (text : List Char) : ∀ c ∈ lead text, isLineBreak c = false := by
  intro c hc
  simpa using List.mem_takeWhile_imp hc

/-- A text has no boundary, or a first one. -/
theorem remainder_cases (text : List Char) : (remainder text = [] ∧ lead text = text) ∨
    ∃ c rest, isLineBreak c = true ∧ remainder text = c :: rest ∧ lead text ++ c :: rest = text := by
  have happend := lead_append_remainder text
  cases hremainder : remainder text with
  | nil =>
    rw [hremainder, List.append_nil] at happend
    exact .inl ⟨rfl, happend⟩
  | cons c rest =>
    have hcons : text.dropWhile (!isLineBreak ·) = c :: rest := hremainder
    have hhead := List.head?_dropWhile_not (!isLineBreak ·) text
    rw [hcons] at hhead
    exact .inr ⟨c, rest, by simpa using hhead, rfl, hremainder ▸ happend⟩

theorem lead_append_of_forall (h : ∀ d ∈ front, isLineBreak d = false) (rest : List Char) :
    lead (front ++ rest) = front ++ lead rest :=
  List.takeWhile_append_of_pos fun d hd => by simp [h d hd]

theorem lead_cons_of_break (hc : isLineBreak c = true) (rest : List Char) : lead (c :: rest) = [] :=
  List.takeWhile_cons_of_neg (by simp [hc])

/-- A line feed behind a row is no part of what stands before the first boundary. -/
theorem lead_append_feed (row rest : List Char) : lead (row ++ '\n' :: rest) = lead row := by
  have hplain := isLineBreak_of_mem_lead row
  obtain ⟨-, hrow⟩ | ⟨c, more, hc, -, hrow⟩ := remainder_cases row
  · calc lead (row ++ '\n' :: rest) = lead (lead row ++ '\n' :: rest) := by rw [hrow]
      _ = lead row := by
          rw [lead_append_of_forall hplain, lead_cons_of_break (by decide), List.append_nil]
  · calc lead (row ++ '\n' :: rest) = lead (lead row ++ c :: (more ++ '\n' :: rest)) := by
          rw [← List.cons_append, ← List.append_assoc, hrow]
      _ = lead row := by
          rw [lead_append_of_forall hplain, lead_cons_of_break hc, List.append_nil]

/-- The first line ends with the first boundary. -/
theorem head?_lines (h : text ≠ []) : (lines text).head? = some (lead text) := by
  have hplain := isLineBreak_of_mem_lead text
  obtain ⟨-, htext⟩ | ⟨c, rest, hc, -, htext⟩ := remainder_cases text
  · rw [htext] at hplain ⊢
    rw [lines_of_forall hplain, if_neg (mt List.isEmpty_iff.mp h)]
    rfl
  · have hfirst : ∃ behind, lines (lead text ++ c :: rest) = lead text :: behind := by
      by_cases hpair : c = '\r' ∧ rest.head? = some '\n'
      · obtain ⟨rfl, hfeed⟩ := hpair
        obtain ⟨behind, rfl⟩ := List.head?_eq_some_iff.mp hfeed
        exact ⟨_, lines_append_pair hplain⟩
      · exact ⟨_, lines_append_break hplain hc fun hreturn hfeed => hpair ⟨hreturn, hfeed⟩⟩
    obtain ⟨behind, hlines⟩ := hfirst
    rw [htext] at hlines
    rw [hlines]
    rfl

/-! ## The pieces of a row -/

/-- A row, taken apart at the boundaries within it. -/
inductive Row : List Char → Prop where
  | plain {front : List Char} (h : ∀ d ∈ front, isLineBreak d = false) : Row front
  | returned {front : List Char} (h : ∀ d ∈ front, isLineBreak d = false) : Row (front ++ ['\r'])
  | broken {front more : List Char} {c : Char} (h : ∀ d ∈ front, isLineBreak d = false)
    (hc : isLineBreak c = true) (hreturn : c = '\r' → more ≠ []) (hfeed : '\n' ∉ more)
    (hmore : Row more) : Row (front ++ c :: more)

theorem row_of_not_mem (h : '\n' ∉ row) : Row row := by
  induction hlength : row.length using Nat.strong_induction_on generalizing row with
  | _ length ih =>
    have hplain := isLineBreak_of_mem_lead row
    obtain ⟨-, hrow⟩ | ⟨c, more, hc, -, hrow⟩ := remainder_cases row
    · exact .plain (hrow ▸ hplain)
    · have hfeed : '\n' ∉ more := fun hmem => h (hrow ▸ by simp [hmem])
      by_cases hend : c = '\r' ∧ more = []
      · obtain ⟨rfl, rfl⟩ := hend
        exact hrow ▸ .returned hplain
      · have hless : more.length < length := by
          rw [← hlength, ← hrow, List.length_append, List.length_cons]
          omega
        exact hrow ▸ .broken hplain hc (fun hreturn hnil => hend ⟨hreturn, hnil⟩) hfeed
          (ih _ hless hfeed rfl)

section Pieces
variable {more : List Char}

theorem lines_plain (h : ∀ d ∈ front, isLineBreak d = false) (rest : List Char) :
    lines (front ++ '\n' :: rest) = front :: lines rest :=
  lines_append_break h (by decide) fun heq => absurd heq (by decide)

theorem lines_returned (h : ∀ d ∈ front, isLineBreak d = false) (rest : List Char) :
    lines (front ++ ['\r'] ++ '\n' :: rest) = front :: lines rest := by
  rw [List.append_assoc, List.singleton_append, lines_append_pair h]

/-- Behind a boundary within a row there is another row. -/
theorem lines_broken (h : ∀ d ∈ front, isLineBreak d = false) (hc : isLineBreak c = true)
    (hreturn : c = '\r' → more ≠ []) (hfeed : '\n' ∉ more) (rest : List Char) :
    lines (front ++ c :: more ++ '\n' :: rest) = front :: lines (more ++ '\n' :: rest) := by
  rw [List.append_assoc, List.cons_append]
  refine lines_append_break h hc fun heq hhead => ?_
  obtain ⟨d, more, rfl⟩ := List.exists_cons_of_ne_nil (hreturn heq)
  rw [List.cons_append, List.head?_cons] at hhead
  exact hfeed (Option.some.inj hhead ▸ List.mem_cons_self)

theorem pieces_plain (h : ∀ d ∈ front, isLineBreak d = false) : pieces front = [front] :=
  lines_plain h []

theorem pieces_returned (h : ∀ d ∈ front, isLineBreak d = false) :
    pieces (front ++ ['\r']) = [front] :=
  lines_returned h []

theorem pieces_broken (h : ∀ d ∈ front, isLineBreak d = false) (hc : isLineBreak c = true)
    (hreturn : c = '\r' → more ≠ []) (hfeed : '\n' ∉ more) :
    pieces (front ++ c :: more) = front :: pieces more :=
  lines_broken h hc hreturn hfeed []

end Pieces

namespace Row

/-- The lines of a text are those of its first row, and those of the text behind it. -/
theorem lines_append (h : Row row) (rest : List Char) :
    lines (row ++ '\n' :: rest) = pieces row ++ lines rest := by
  induction h with
  | plain h =>
    rw [lines_plain h, pieces_plain h]
    rfl
  | returned h =>
    rw [lines_returned h, pieces_returned h]
    rfl
  | broken h hc hreturn hfeed _ ih =>
    rw [lines_broken h hc hreturn hfeed, pieces_broken h hc hreturn hfeed, ih]
    rfl

theorem infix_of_mem_pieces (h : Row row) (hpiece : piece ∈ pieces row) : piece <:+: row := by
  induction h with
  | @plain front h =>
    rw [pieces_plain h] at hpiece
    exact List.mem_singleton.mp hpiece ▸ List.infix_rfl
  | @returned front h =>
    rw [pieces_returned h] at hpiece
    exact List.mem_singleton.mp hpiece ▸ (List.prefix_append front ['\r']).isInfix
  | @broken front more c h hc hreturn hfeed _ ih =>
    rw [pieces_broken h hc hreturn hfeed] at hpiece
    rcases List.mem_cons.mp hpiece with rfl | hmem
    · exact (List.prefix_append piece (c :: more)).isInfix
    · have hbehind : more <:+: front ++ c :: more := ⟨front ++ [c], [], by simp⟩
      exact (ih hmem).trans hbehind

theorem length_pieces_pos (h : Row row) : 0 < (pieces row).length := by
  cases h with
  | plain h => simp [pieces_plain h]
  | returned h => simp [pieces_returned h]
  | broken h hc hreturn hfeed _ => simp [pieces_broken h hc hreturn hfeed]

/-- A row is one line exactly if it is unbroken. -/
theorem length_pieces_eq_one_iff (h : Row row) : (pieces row).length = 1 ↔ Unbroken row := by
  have hskip {front : List Char} (hfront : ∀ d ∈ front, isLineBreak d = false)
      (behind : List Char) : remainder (front ++ behind) = remainder behind :=
    List.dropWhile_append_of_pos fun d hd => by simp [hfront d hd]
  cases h with
  | plain h =>
    have hnil : remainder row = [] := List.dropWhile_eq_nil_iff.mpr fun d hd => by simp [h d hd]
    simp [pieces_plain h, Unbroken, hnil]
  | returned h =>
    have hreturn : remainder ['\r'] = ['\r'] := by decide
    simp [pieces_returned h, Unbroken, hskip h, hreturn]
  | @broken front more c h hc hreturn hfeed hmore =>
    have hcons : remainder (c :: more) = c :: more := List.dropWhile_cons_of_neg (by simp [hc])
    have hpos := hmore.length_pieces_pos
    rw [pieces_broken h hc hreturn hfeed, Unbroken, hskip h, hcons, List.length_cons]
    constructor
    · intro hone
      omega
    · rintro (hnil | hone)
      · cases hnil
      · obtain ⟨rfl, rfl⟩ := List.cons.inj hone
        exact absurd rfl (hreturn rfl)

end Row

/-! ## Rows and lines -/

theorem rows_of_not_mem (h : '\n' ∉ row) : rows row = [row] :=
  List.splitOn_eq_singleton h

theorem rows_append (h : '\n' ∉ row) (rest : List Char) :
    rows (row ++ '\n' :: rest) = row :: rows rest :=
  List.splitOn_append_cons_self_of_not_mem h rest

/-- A text is its last row, or a row, a line feed and the text behind it. -/
@[elab_as_elim]
theorem rows_induction {motive : List Char → Prop} (last : ∀ row, '\n' ∉ row → motive row)
    (more : ∀ row rest, '\n' ∉ row → motive rest → motive (row ++ '\n' :: rest))
    (text : List Char) : motive text := by
  induction hlength : text.length using Nat.strong_induction_on generalizing text with
  | _ length ih =>
    by_cases hfeed : '\n' ∈ text
    · obtain ⟨row, rest, rfl, hrow⟩ := List.eq_append_cons_of_mem hfeed
      have hless : rest.length < length := by
        rw [← hlength, List.length_append, List.length_cons]
        omega
      exact more row rest hrow (ih _ hless rest rfl)
    · exact last text hfeed

/-- There is one row more than there are line feeds. -/
theorem length_rows (text : List Char) : (rows text).length = text.count '\n' + 1 := by
  induction text using rows_induction with
  | last row hrow =>
    rw [rows_of_not_mem hrow, List.count_eq_zero_of_not_mem hrow]
    rfl
  | more row rest hrow ih =>
    rw [rows_append hrow, List.length_cons, ih, List.count_append, List.count_cons_self,
      List.count_eq_zero_of_not_mem hrow, Nat.zero_add]

theorem row_of_mem_rows (h : row ∈ rows text) : Row row := by
  induction text using rows_induction with
  | last first hfirst =>
    rw [rows_of_not_mem hfirst, List.mem_singleton] at h
    exact h ▸ row_of_not_mem hfirst
  | more first rest hfirst ih =>
    rw [rows_append hfirst] at h
    rcases List.mem_cons.mp h with rfl | hmem
    · exact row_of_not_mem hfirst
    · exact ih hmem

/-- Behind unbroken rows the line of the same number is the row up to its first boundary. An empty
row that ends the text is no line. -/
theorem getElem?_lines_of_unbroken (hrow : (rows text)[index]? = some row)
    (h : ∀ earlier ∈ (rows text).take index, Unbroken earlier) :
    (lines text)[index]? = some (lead row) ∨ row = [] ∧ (lines text)[index]? = none := by
  induction text using rows_induction generalizing index with
  | last last hlast =>
    rw [rows_of_not_mem hlast, List.getElem?_singleton] at hrow
    split at hrow
    · rename_i hindex
      obtain rfl := Option.some.inj hrow
      rw [hindex, ← List.head?_eq_getElem?]
      by_cases hempty : last = []
      · exact .inr ⟨hempty, by rw [hempty]; rfl⟩
      · exact .inl (head?_lines hempty)
    · cases hrow
  | more first rest hfirst ih =>
    rw [rows_append hfirst] at hrow h
    cases index with
    | zero =>
      obtain rfl := Option.some.inj hrow
      rw [← List.head?_eq_getElem?, head?_lines (by simp), lead_append_feed]
      exact .inl rfl
    | succ index =>
      have hone : (pieces first).length = 1 :=
        (row_of_not_mem hfirst).length_pieces_eq_one_iff.mpr (h first List.mem_cons_self)
      rw [(row_of_not_mem hfirst).lines_append, List.getElem?_append_right (by omega), hone]
      exact ih hrow fun earlier hearlier => h earlier (List.mem_cons_of_mem _ hearlier)

/-- The lines of the rows before a row come before all others. -/
theorem exists_lines_eq (h : index < (rows text).length) :
    ∃ behind, lines text = ((rows text).take index).flatMap pieces ++ behind := by
  induction text using rows_induction generalizing index with
  | last last hlast =>
    rw [rows_of_not_mem hlast, List.length_singleton, Nat.lt_one_iff] at h
    exact ⟨lines last, by rw [h]; rfl⟩
  | more first rest hfirst ih =>
    rw [rows_append hfirst] at h ⊢
    cases index with
    | zero => exact ⟨_, rfl⟩
    | succ index =>
      obtain ⟨behind, hbehind⟩ := ih (Nat.lt_of_succ_lt_succ h)
      refine ⟨behind, ?_⟩
      rw [(row_of_not_mem hfirst).lines_append, hbehind, List.take_succ_cons, List.flatMap_cons,
        List.append_assoc]

section Counting
variable {before : List (List Char)}

theorem length_le_length_flatMap_pieces (h : ∀ row ∈ before, Row row) :
    before.length ≤ (before.flatMap pieces).length := by
  induction before with
  | nil => exact Nat.le_refl 0
  | cons row before ih =>
    obtain ⟨hrow, hbefore⟩ := List.forall_mem_cons.mp h
    have hpos := hrow.length_pieces_pos
    have hrest := ih hbefore
    rw [List.flatMap_cons, List.length_append, List.length_cons]
    omega

/-- Rows of which one is broken make more lines than they are. -/
theorem length_lt_length_flatMap_pieces (h : ∀ row ∈ before, Row row)
    (hbroken : ∃ row ∈ before, ¬ Unbroken row) : before.length < (before.flatMap pieces).length := by
  obtain ⟨row, hmem, hrow⟩ := hbroken
  obtain ⟨front, rest, rfl⟩ := List.append_of_mem hmem
  have hfront := length_le_length_flatMap_pieces fun row hrow => h row (List.mem_append_left _ hrow)
  have hrest := length_le_length_flatMap_pieces fun row hrow =>
    h row (List.mem_append_right _ (List.mem_cons_of_mem _ hrow))
  have hpos := (h row hmem).length_pieces_pos
  have hone := mt (h row hmem).length_pieces_eq_one_iff.mp hrow
  rw [List.flatMap_append, List.flatMap_cons, List.length_append, List.length_append,
    List.length_append, List.length_cons]
  omega

end Counting

/-- Behind a broken row the line of the same number is a piece of a row before. -/
theorem getElem?_lines_of_broken (hindex : index < (rows text).length)
    (h : ∃ earlier ∈ (rows text).take index, ¬ Unbroken earlier) :
    ∃ earlier ∈ (rows text).take index, ∃ piece, piece <:+: earlier ∧
      (lines text)[index]? = some piece := by
  have hrows : ∀ row ∈ (rows text).take index, Row row :=
    fun row hrow => row_of_mem_rows (List.mem_of_mem_take hrow)
  have hlength : index < (((rows text).take index).flatMap pieces).length := by
    have hless := length_lt_length_flatMap_pieces hrows h
    rwa [List.length_take_of_le (Nat.le_of_lt hindex)] at hless
  obtain ⟨behind, hlines⟩ := exists_lines_eq hindex
  obtain ⟨earlier, hearlier, hpiece⟩ := List.mem_flatMap.mp (List.getElem_mem hlength)
  refine ⟨earlier, hearlier, _, (hrows earlier hearlier).infix_of_mem_pieces hpiece, ?_⟩
  rw [hlines, List.getElem?_append_left hlength, List.getElem?_eq_getElem hlength]

/-- A form feed breaks the first row, and the second line is its second half. -/
example : (rows "ab\x0ccd\nef".toList)[1]? = some "ef".toList ∧
    (lines "ab\x0ccd\nef".toList)[1]? = some "cd".toList := by decide

end Lox.Text
