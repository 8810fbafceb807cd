import Lox.Proofs.Token.Scanning
import Lox.Syntax.Printer

/-!
# Words in nested parentheses

A tree in prefix form is a nest of lists in parentheses, with words at the bottom. Nothing is escaped
in the words, but the text still has only one reading: a word in quotes has no quotes inside, and
other words have no blanks, parentheses or quotes. So the place where a part of a list ends is known
from the text, whatever comes behind.
-/
namespace Lox

/-- A word, or a list of parts in parentheses. -/
inductive Sexp where
  | word (text : String)
  | list (parts : List Sexp)

namespace Sexp

section Texts

mutual

/-- The text of a nest. -/
def text : Sexp → String
  | word text => text
  | list parts => "(" ++ " ".intercalate (texts parts) ++ ")"

/-- The texts of the parts of a list. -/
def texts : List Sexp → List String
  | [] => []
  | part :: parts => part.text :: texts parts

end

/-- A word that shows where it ends. -/
inductive LegibleWord : List Char → Prop where
  | quoted {inside : List Char} (h : '"' ∉ inside) : LegibleWord ('"' :: (inside ++ ['"']))
  | plain {text : List Char} (hne : text ≠ []) (h : ∀ d ∈ text, d ∉ [' ', '(', ')', '"']) :
    LegibleWord text

theorem LegibleWord.of_all {text : List Char} (hne : text ≠ [] := by decide)
    (h : text.all (fun d => !([' ', '(', ')', '"'].contains d)) = true := by decide) :
    LegibleWord text :=
  .plain hne fun d hd => by simpa using List.all_eq_true.mp h d hd

mutual

/-- A nest of words that show where they end. -/
def Legible : Sexp → Prop
  | word text => LegibleWord text.toList
  | list parts => AllLegible parts

def AllLegible : List Sexp → Prop
  | [] => True
  | part :: parts => part.Legible ∧ AllLegible parts

end

end Texts

section Reading
variable {a b : Sexp} {parts others : List Sexp} {text other rest rest' : List Char}

/-- What may come behind a part of a list. -/
def Ended (rest : List Char) : Prop :=
  ∀ c ∈ rest.head?, c = ' ' ∨ c = ')'

/-- Runs of characters with some property, as long as possible, are told from the text. -/
theorem append_inj_of_run {p : Char → Bool} (htext : ∀ c ∈ text, p c = true)
    (hother : ∀ c ∈ other, p c = true) (hrest : ∀ c ∈ rest.head?, p c = false)
    (hrest' : ∀ c ∈ rest'.head?, p c = false) (h : text ++ rest = other ++ rest') :
    text = other ∧ rest = rest' := by
  have hrun := congrArg (List.takeWhile p) h
  rw [Lexer.takeWhile_append_of_head? hrest, Lexer.takeWhile_append_of_head? hrest',
    List.takeWhile_eq_self_iff.mpr htext, List.takeWhile_eq_self_iff.mpr hother] at hrun
  exact ⟨hrun, List.append_cancel_left (hrun ▸ h)⟩

theorem LegibleWord.append_inj (htext : LegibleWord text) (hother : LegibleWord other)
    (hrest : Ended rest) (hrest' : Ended rest') (h : text ++ rest = other ++ rest') :
    text = other ∧ rest = rest' := by
  have hstop : ∀ {rest : List Char}, Ended rest →
      ∀ c ∈ rest.head?, decide (c ∉ [' ', '(', ')', '"']) = false := by
    intro rest hrest c hc
    rcases hrest c hc with rfl | rfl <;> decide
  cases htext with
  | @quoted inside hinside =>
    cases hother with
    | @quoted others hothers =>
      simp only [List.cons_append, List.append_assoc, List.nil_append, List.cons.injEq,
        true_and] at h
      have hrun : ∀ {text : List Char}, '"' ∉ text → ∀ c ∈ text, decide (c ≠ '"') = true :=
        fun hquote c hc => decide_eq_true fun heq => hquote (heq ▸ hc)
      obtain ⟨rfl, hrest⟩ := append_inj_of_run (p := (· ≠ '"')) (hrun hinside) (hrun hothers)
        (by simp) (by simp) h
      exact ⟨rfl, List.tail_eq_of_cons_eq hrest⟩
    | plain hne hothers =>
      obtain ⟨c, more, rfl⟩ := List.exists_cons_of_ne_nil hne
      obtain ⟨rfl, -⟩ := List.cons.inj h
      exact absurd (hothers _ List.mem_cons_self) (by decide)
  | plain hne hchars =>
    cases hother with
    | quoted =>
      obtain ⟨c, more, rfl⟩ := List.exists_cons_of_ne_nil hne
      obtain ⟨rfl, -⟩ := List.cons.inj h
      exact absurd (hchars _ List.mem_cons_self) (by decide)
    | plain _ hothers =>
      exact append_inj_of_run (p := (· ∉ [' ', '(', ')', '"']))
        (fun c hc => decide_eq_true (hchars c hc)) (fun c hc => decide_eq_true (hothers c hc))
        (hstop hrest) (hstop hrest') h

/-- A word begins like no list, and neither of them like the end of a list. -/
theorem LegibleWord.starts (h : LegibleWord text) :
    ∃ c more, text = c :: more ∧ c ≠ '(' ∧ c ≠ ')' := by
  cases h with
  | quoted => exact ⟨'"', _, rfl, by decide, by decide⟩
  | plain hne h =>
    obtain ⟨c, more, rfl⟩ := List.exists_cons_of_ne_nil hne
    have hc := h c List.mem_cons_self
    simp only [List.mem_cons, not_or] at hc
    exact ⟨c, more, rfl, hc.2.1, hc.2.2.1⟩

theorem toList_list (parts : List Sexp) :
    (list parts).text.toList = '(' :: ((" ".intercalate (texts parts)).toList ++ [')']) := by
  simp [text]

theorem Legible.starts (h : a.Legible) : ∃ c more, a.text.toList = c :: more ∧ c ≠ ')' := by
  cases a with
  | word text =>
    obtain ⟨c, more, htext, -, hc⟩ := LegibleWord.starts h
    exact ⟨c, more, htext, hc⟩
  | list parts => exact ⟨'(', _, toList_list parts, by decide⟩

theorem Legible.text_ne_empty (h : a.Legible) : a.text ≠ "" := by
  obtain ⟨c, more, htext, -⟩ := h.starts
  intro hempty
  rw [hempty] at htext
  cases htext

/-- The text of the parts of a list from the first one on, and the end of the list. -/
def inside (parts : List Sexp) (rest : List Char) : List Char :=
  (" ".intercalate (texts parts)).toList ++ ')' :: rest

/-- The text of a list behind one of its parts. -/
def behind : List Sexp → List Char → List Char
  | [], rest => ')' :: rest
  | parts, rest => ' ' :: inside parts rest

theorem inside_cons (part : Sexp) (parts : List Sexp) (rest : List Char) :
    inside (part :: parts) rest = part.text.toList ++ behind parts rest := by
  cases parts with
  | nil => simp [inside, behind, texts, String.intercalate_singleton]
  | cons next parts => simp [inside, behind, texts, String.intercalate_cons_cons]

theorem ended_behind (parts : List Sexp) (rest : List Char) : Ended (behind parts rest) := by
  cases parts with
  | nil =>
    rintro c ⟨⟩
    exact .inr rfl
  | cons =>
    rintro c ⟨⟩
    exact .inl rfl

mutual

/-- A legible nest is known from a text that begins with it. -/
theorem Legible.append_inj : ∀ {a b : Sexp} {rest rest' : List Char}, a.Legible → b.Legible →
    Ended rest → Ended rest' → a.text.toList ++ rest = b.text.toList ++ rest' → a = b ∧ rest = rest'
  | word text, word other, rest, rest', ha, hb, hrest, hrest', h => by
    obtain ⟨htext, heq⟩ := LegibleWord.append_inj ha hb hrest hrest' h
    exact ⟨congrArg word (String.toList_inj.mp htext), heq⟩
  | word text, list others, rest, rest', ha, hb, hrest, hrest', h => by
    obtain ⟨c, more, htext, hc, -⟩ := LegibleWord.starts ha
    rw [show (word text).text.toList = c :: more from htext, toList_list] at h
    exact absurd (List.cons.inj h).1 hc
  | list parts, word other, rest, rest', ha, hb, hrest, hrest', h => by
    obtain ⟨c, more, htext, hc, -⟩ := LegibleWord.starts hb
    rw [show (word other).text.toList = c :: more from htext, toList_list] at h
    exact absurd (List.cons.inj h).1.symm hc
  | list parts, list others, rest, rest', ha, hb, hrest, hrest', h => by
    rw [toList_list, toList_list] at h
    have hinside : inside parts rest = inside others rest' := by
      simpa [inside] using h
    obtain ⟨rfl, heq⟩ := AllLegible.inside_inj ha hb hinside
    exact ⟨rfl, heq⟩

theorem AllLegible.inside_inj : ∀ {parts others : List Sexp} {rest rest' : List Char},
    AllLegible parts → AllLegible others → inside parts rest = inside others rest' →
      parts = others ∧ rest = rest'
  | [], [], _, _, _, _, h => ⟨rfl, List.tail_eq_of_cons_eq h⟩
  | [], b :: others, rest, rest', _, hothers, h => by
    obtain ⟨c, more, htext, hc⟩ := hothers.1.starts
    rw [inside_cons, htext] at h
    exact absurd (List.cons.inj h).1.symm hc
  | a :: parts, [], rest, rest', hparts, _, h => by
    obtain ⟨c, more, htext, hc⟩ := hparts.1.starts
    rw [inside_cons, htext] at h
    exact absurd (List.cons.inj h).1 hc
  | a :: parts, b :: others, rest, rest', hparts, hothers, h => by
    rw [inside_cons, inside_cons] at h
    obtain ⟨rfl, hbehind⟩ := Legible.append_inj hparts.1 hothers.1 (ended_behind parts rest)
      (ended_behind others rest') h
    -- Behind the same first part a blank or a parenthesis tells whether there is another one.
    match parts, others with
    | [], [] => exact ⟨rfl, List.tail_eq_of_cons_eq hbehind⟩
    | [], _ :: _ => exact absurd (List.cons.inj hbehind).1 (by decide)
    | _ :: _, [] => exact absurd (List.cons.inj hbehind).1 (by decide)
    | _ :: _, _ :: _ =>
      obtain ⟨hparts, heq⟩ :=
        AllLegible.inside_inj hparts.2 hothers.2 (List.tail_eq_of_cons_eq hbehind)
      exact ⟨congrArg (a :: ·) hparts, heq⟩

end

/-- Legible nests with the same text are the same. -/
theorem Legible.eq_of_text (ha : a.Legible) (hb : b.Legible) (h : a.text = b.text) : a = b := by
  have hrest : Ended [] := nofun
  exact (Legible.append_inj ha hb hrest hrest (congrArg (·.toList ++ []) h)).1

end Reading

end Sexp

end Lox
