import Lox.Token.Reader
import Mathlib.Data.List.Basic

/-!
# A reader is a place in a text

A text with a position in it answers the same questions as a reader: it looks a number of places
ahead, and takes the character at its position. It keeps no buffer and knows no stream. Whatever is
asked, in whatever order, the reader gives the answers of the text with its position.
-/
namespace Lox

/-- The answers to calls that are made one after the other, and the state behind them. -/
def converse {σ : Type} (answer : σ → Reader.Call → Option Char × σ) :
    σ → List Reader.Call → List (Option Char) × σ
  | s, [] => ([], s)
  | s, call :: calls =>
    ((answer s call).1 :: (converse answer (answer s call).2 calls).1,
      (converse answer (answer s call).2 calls).2)

section Conversations
variable {σ : Type} {answer : σ → Reader.Call → Option Char × σ}

theorem length_converse (s : σ) (calls : List Reader.Call) :
    (converse answer s calls).1.length = calls.length := by
  induction calls generalizing s with
  | nil => rfl
  | cons call calls ih => exact congrArg (· + 1) (ih _)

theorem converse_append (s : σ) (calls more : List Reader.Call) :
    converse answer s (calls ++ more) =
      ((converse answer s calls).1 ++ (converse answer (converse answer s calls).2 more).1,
        (converse answer (converse answer s calls).2 more).2) := by
  induction calls generalizing s with
  | nil => rfl
  | cons call calls ih =>
    simp only [List.cons_append, converse, ih]

end Conversations

/-- A text and a position in it, at its end at most. -/
structure Cursor where
  text : List Char
  position : Nat
  position_le : position ≤ text.length

namespace Cursor

/-- The first position of a text. -/
def start (text : String) : Cursor where
  text := text.toList
  position := 0
  position_le := Nat.zero_le _

/-- The character so many places ahead of the position, if the text goes that far. Taking the one at
the position moves the position by one; at the end there is none, and the position stays. -/
def answer (c : Cursor) : Reader.Call → Option Char × Cursor
  | .peek offset => (c.text[c.position + offset]?, c)
  | .advance =>
    if h : c.position < c.text.length then
      (some c.text[c.position], { c with position := c.position + 1, position_le := h })
    else (none, c)

/-- What is behind the position. -/
def rest (c : Cursor) : List Char :=
  c.text.drop c.position

theorem answer_peek (c : Cursor) (offset : Nat) :
    c.answer (.peek offset) = (c.rest[offset]?, c) := by
  rw [answer, rest, List.getElem?_drop]

theorem answer_advance_fst (c : Cursor) : (c.answer .advance).1 = c.rest.head? := by
  rw [rest, List.head?_drop]
  by_cases h : c.position < c.text.length
  · simp [answer, h]
  · simp [answer, h]

theorem rest_advance (c : Cursor) : (c.answer .advance).2.rest = c.rest.tail := by
  by_cases h : c.position < c.text.length
  · simp [answer, rest, h]
  · simp [answer, rest, h, List.drop_eq_nil_of_le (Nat.le_of_not_lt h)]

/-- A look changes no other answer. -/
theorem eraseIdx_converse_peek (c : Cursor) (before behind : List Reader.Call) (offset : Nat) :
    (converse answer c (before ++ .peek offset :: behind)).1.eraseIdx before.length =
      (converse answer c (before ++ behind)).1 := by
  have hlength : (converse answer c before).1.length = before.length := length_converse c before
  simp only [converse_append, converse]
  rw [← hlength, List.eraseIdx_append_of_length_le (Nat.le_refl _), Nat.sub_self,
    List.eraseIdx_cons_zero]
  rfl

end Cursor

/-- The characters that have been taken, in order. -/
def taken (calls : List Reader.Call) (answers : List (Option Char)) : List Char :=
  ((calls.zip answers).filter (·.1 = .advance)).filterMap (·.2)

section Taking
variable {calls : List Reader.Call} {answers : List (Option Char)}

theorem taken_peek_cons (offset : Nat) (seen : Option Char) :
    taken (.peek offset :: calls) (seen :: answers) = taken calls answers := rfl

theorem taken_advance_cons (next : Option Char) :
    taken (.advance :: calls) (next :: answers) = next.toList ++ taken calls answers := by
  cases next <;> rfl

end Taking

namespace Reader
variable {r : Reader} {c : Cursor}

/-- The reader has to come what is behind the cursor. -/
def Shows (r : Reader) (c : Cursor) : Prop :=
  r.rest = c.rest

namespace Shows

theorem start (text : String) : (ofText text).Shows (Cursor.start text) := rfl

/-- A call is answered alike. -/
theorem answer (h : r.Shows c) (call : Call) :
    (r.answer call).1 = (c.answer call).1 ∧ (r.answer call).2.Shows (c.answer call).2 := by
  cases call with
  | peek offset =>
    rw [c.answer_peek]
    refine ⟨?_, (r.rest_ahead offset).trans h⟩
    exact (r.peek_eq offset).trans (congrArg (·[offset]?) h)
  | advance =>
    refine ⟨?_, ?_⟩
    · rw [c.answer_advance_fst, ← h, List.head?_eq_getElem?, ← r.peek_eq]
      exact r.advance_fst
    · exact r.rest_advance.trans ((congrArg List.tail h).trans c.rest_advance.symm)

/-- Calls in any order are answered alike. -/
theorem converse (h : r.Shows c) (calls : List Call) :
    (converse Reader.answer r calls).1 = (Lox.converse Cursor.answer c calls).1 ∧
      (Lox.converse Reader.answer r calls).2.Shows (Lox.converse Cursor.answer c calls).2 := by
  induction calls generalizing r c with
  | nil => exact ⟨rfl, h⟩
  | cons call calls ih =>
    obtain ⟨hanswer, hnext⟩ := h.answer call
    obtain ⟨hanswers, hlast⟩ := ih hnext
    exact ⟨congrArg₂ List.cons hanswer hanswers, hlast⟩

end Shows

/-- What is taken comes from the front of what is to come, and the rest stays. -/
theorem taken_converse (r : Reader) (calls : List Call) :
    taken calls (converse answer r calls).1 = r.rest.take (calls.count .advance) ∧
      (converse answer r calls).2.rest = r.rest.drop (calls.count .advance) := by
  induction calls generalizing r with
  | nil => exact ⟨rfl, rfl⟩
  | cons call calls ih =>
    obtain ⟨htaken, hrest⟩ := ih (r.answer call).2
    cases call with
    | peek offset =>
      have hkept : (r.answer (.peek offset)).2.rest = r.rest := r.rest_ahead offset
      rw [hkept] at htaken hrest
      have hcount : (Call.peek offset :: calls).count .advance = calls.count .advance := rfl
      rw [hcount, converse, taken_peek_cons]
      exact ⟨htaken, hrest⟩
    | advance =>
      have htail : (r.answer .advance).2.rest = r.rest.tail := r.rest_advance
      have hhead : (r.answer .advance).1 = r.rest.head? := by
        rw [List.head?_eq_getElem?, ← r.peek_eq]
        exact r.advance_fst
      rw [htail] at htaken hrest
      rw [List.count_cons_self, converse, taken_advance_cons, hhead, htaken, hrest]
      cases r.rest with
      | nil => simp
      | cons c rest => exact ⟨rfl, rfl⟩

/-- A reader gives every answer that its text with a position in it gives, whatever is asked of it in
whatever order; what has been taken and what is still to come make up the text. Leaving out a look
leaves out its answer and changes no other. -/
theorem answers_from_position (text : String) :
    (∀ calls, (converse answer (ofText text) calls).1 =
          (converse Cursor.answer (Cursor.start text) calls).1 ∧
        taken calls (converse answer (ofText text) calls).1 =
          text.toList.take (calls.count .advance) ∧
        (converse answer (ofText text) calls).2.rest = text.toList.drop (calls.count .advance)) ∧
      ∀ before offset behind,
        (converse answer (ofText text) (before ++ .peek offset :: behind)).1.eraseIdx before.length =
          (converse answer (ofText text) (before ++ behind)).1 := by
  have hsame : ∀ calls, (converse answer (ofText text) calls).1 =
      (converse Cursor.answer (Cursor.start text) calls).1 :=
    fun calls => ((Shows.start text).converse calls).1
  refine ⟨fun calls => ⟨hsame calls, taken_converse (ofText text) calls⟩, ?_⟩
  intro before offset behind
  rw [hsame, hsame]
  exact (Cursor.start text).eraseIdx_converse_peek before behind offset

/-- A look beyond the end hides nothing that has not been taken. -/
example : (converse answer (ofText "ab") [.peek 1, .peek 5, .advance, .peek 0, .advance, .advance,
    .peek 0]).1 = [some 'b', none, some 'a', some 'b', some 'b', none, none] := by decide

end Reader

end Lox
