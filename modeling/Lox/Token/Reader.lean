/-!
# Reading characters

A reader takes the characters of a text one at a time from a stream, and can look any number of
places ahead. What it has looked at and not yet taken waits in a buffer. Once the stream has been
found at its end it is not asked again; at the end the reader answers nothing and stays where it is.
-/
namespace Lox

/-- What the stream still holds, what has been read from it and not been taken, and whether it has
been found at its end. -/
structure Reader where
  stream : List Char
  buffer : List Char
  exhausted : Bool
  /-- A stream that has been found at its end holds nothing. -/
  stream_eq_nil : exhausted = true → stream = []
  deriving DecidableEq, Repr

namespace Reader

/-- A reader at the start of `text`. -/
def ofText (text : String) : Reader where
  stream := text.toList
  buffer := []
  exhausted := false
  stream_eq_nil := by simp

/-- The reader that has moved characters from a stream into `buffer`, until one is at `offset` or the
stream is found at its end. -/
def fill (offset : Nat) (buffer : List Char) : List Char → Reader
  | [] =>
    if buffer.length ≤ offset then ⟨[], buffer, true, fun _ => rfl⟩ else ⟨[], buffer, false, by simp⟩
  | c :: stream =>
    if buffer.length ≤ offset then fill offset (buffer ++ [c]) stream
    else ⟨c :: stream, buffer, false, by simp⟩

/-- The reader once it has looked `offset` places ahead. -/
def ahead (r : Reader) (offset : Nat) : Reader :=
  if r.exhausted then r else fill offset r.buffer r.stream

/-- The character `offset` places ahead. -/
def peek (r : Reader) (offset : Nat := 0) : Option Char :=
  (r.ahead offset).buffer[offset]?

/-- The next character, and the reader behind it. -/
def advance (r : Reader) : Option Char × Reader :=
  let r := r.ahead 0
  (r.buffer.head?, { r with buffer := r.buffer.tail })

/-- What a reader can be asked for. -/
inductive Call where
  | peek (offset : Nat)
  | advance
  deriving DecidableEq, Repr

/-- The answer to a call, and the reader behind it. -/
def answer (r : Reader) : Call → Option Char × Reader
  | .peek offset => (r.peek offset, r.ahead offset)
  | .advance => r.advance

/-- All that is still to come, looked at or not. -/
def rest (r : Reader) : List Char :=
  r.buffer ++ r.stream

@[simp] theorem rest_ofText (text : String) : (ofText text).rest = text.toList := rfl

/-- Reading ahead moves characters and loses none. -/
@[simp] theorem rest_fill (offset : Nat) (buffer stream : List Char) :
    (fill offset buffer stream).rest = buffer ++ stream := by
  induction stream generalizing buffer with
  | nil =>
    unfold fill
    split <;> rfl
  | cons c stream ih =>
    unfold fill
    split
    · rw [ih, List.append_assoc, List.singleton_append]
    · rfl

@[simp] theorem rest_ahead (r : Reader) (offset : Nat) : (r.ahead offset).rest = r.rest := by
  unfold ahead
  split
  · rfl
  · exact rest_fill offset r.buffer r.stream

/-- Behind what has been read ahead there is nothing unless the buffer reaches beyond `offset`. -/
theorem stream_fill (offset : Nat) (buffer stream : List Char) :
    offset < (fill offset buffer stream).buffer.length ∨
      (fill offset buffer stream).stream = [] := by
  induction stream generalizing buffer with
  | nil =>
    unfold fill
    split <;> exact .inr rfl
  | cons c stream ih =>
    unfold fill
    split
    · exact ih _
    · rename_i hlong
      exact .inl (Nat.lt_of_not_le hlong)

theorem stream_ahead (r : Reader) (offset : Nat) :
    offset < (r.ahead offset).buffer.length ∨ (r.ahead offset).stream = [] := by
  unfold ahead
  split
  · rename_i hexhausted
    exact .inr (r.stream_eq_nil hexhausted)
  · exact stream_fill offset r.buffer r.stream

/-- Looking ahead finds the character that is so many places ahead in all that is to come. -/
theorem peek_eq (r : Reader) (offset : Nat) : r.peek offset = r.rest[offset]? := by
  rw [← r.rest_ahead offset, rest, peek]
  rcases r.stream_ahead offset with hlong | hnil
  · rw [List.getElem?_append_left hlong]
  · rw [hnil, List.append_nil]

/-- Taking a character is a look at the next one. -/
theorem advance_fst (r : Reader) : r.advance.1 = r.peek 0 :=
  List.head?_eq_getElem?

/-- What was next is no longer to come. -/
theorem rest_advance (r : Reader) : r.advance.2.rest = r.rest.tail := by
  have hahead : r.advance.2.rest = (r.ahead 0).buffer.tail ++ (r.ahead 0).stream := rfl
  rw [hahead, ← r.rest_ahead 0, rest]
  rcases r.stream_ahead 0 with hlong | hnil
  · rw [List.tail_append_of_ne_nil (List.ne_nil_of_length_pos hlong)]
  · rw [hnil, List.append_nil, List.append_nil]

end Reader

end Lox
