import Lox.Proofs.Recovery.Courses
import Lox.Proofs.Session.Soundness

/-!
# Where reading goes on after an error

A parser reads ahead into a buffer. When it has failed it drops the offending token, unless a lexical
error has been passed over already, and then everything up to the first token at which a statement
may start or the input ends. Lexical errors on the way are dropped as well. In the end that token is
in the buffer, alone, and the parser goes on like a new one that begins there.
-/
namespace Lox
open Outcome

namespace TokenStream
variable {s : TokenStream}

/-- The stream behind its first `count` answers. -/
def skipped : Nat → TokenStream → TokenStream
  | 0, s => s
  | count + 1, s => skipped count s.tail

/-- Answer number `i` of a stream that is asked for its next token over and over. -/
def answer (i : Nat) (s : TokenStream) : Except LexicalError Token :=
  (s.skipped i).head

@[simp] theorem skipped_zero (s : TokenStream) : s.skipped 0 = s := rfl

theorem skipped_succ (count : Nat) (s : TokenStream) : s.skipped (count + 1) = s.tail.skipped count :=
  rfl

theorem tail_skipped (count : Nat) (s : TokenStream) : (s.skipped count).tail = s.skipped (count + 1) := by
  induction count generalizing s with
  | zero => rfl
  | succ count ih => exact ih s.tail

theorem skipped_skipped (count more : Nat) (s : TokenStream) :
    (s.skipped count).skipped more = s.skipped (count + more) := by
  induction count generalizing s with
  | zero => rw [Nat.zero_add, skipped_zero]
  | succ count ih => rw [Nat.add_right_comm, skipped_succ, skipped_succ, ih]

theorem answer_skipped (i count : Nat) (s : TokenStream) :
    (s.skipped count).answer i = s.answer (count + i) := by
  rw [answer, skipped_skipped, answer]

theorem Genuine.skipped (h : s.Genuine) (count : Nat) : (s.skipped count).Genuine := by
  induction count generalizing s with
  | zero => exact h
  | succ count ih => exact ih h.tail

/-- Only what is in front of the end of the input may be no point to go on at. -/
theorem pending_ne_nil_of_isSyncPoint (h : isSyncPoint s.head = false) : s.pending ≠ [] := by
  intro hpending
  rw [head_of_pending_eq_nil hpending] at h
  cases h

theorem sync_eq (s : TokenStream) : s.sync = if isSyncPoint s.head then s else s.tail.sync := by
  by_cases hpending : s.pending = []
  · rw [head_of_pending_eq_nil hpending, sync_of_pending_eq_nil hpending]
    rfl
  · exact sync_of_pending_ne_nil hpending

/-- Synchronizing goes to the first point at which reading can go on. -/
theorem exists_sync (s : TokenStream) :
    ∃ count, s.sync = s.skipped count ∧ isSyncPoint (s.answer count) = true ∧
      ∀ i < count, isSyncPoint (s.answer i) = false := by
  induction hremaining : s.remaining generalizing s with
  | zero =>
    have hpending : s.pending = [] := pending_eq_nil_iff.mpr hremaining
    refine ⟨0, sync_of_pending_eq_nil hpending, ?_, nofun⟩
    rw [answer, skipped_zero, head_of_pending_eq_nil hpending]
    rfl
  | succ remaining ih =>
    rw [sync_eq]
    by_cases hpoint : isSyncPoint s.head = true
    · exact ⟨0, if_pos hpoint, hpoint, nofun⟩
    · obtain ⟨count, hsync, hstop, hfirst⟩ := ih s.tail (by rw [remaining_tail, hremaining]; rfl)
      refine ⟨count + 1, (if_neg hpoint).trans hsync, hstop, fun i hi => ?_⟩
      cases i with
      | zero => exact Bool.eq_false_iff.mpr hpoint
      | succ i => exact hfirst i (Nat.lt_of_succ_lt_succ hi)

/-- The same for a stream behind answer number `i` of another one. -/
theorem exists_sync_behind (i : Nat) (s : TokenStream) :
    ∃ j, i < j ∧ (s.skipped (i + 1)).sync = s.skipped j ∧
      ∀ k, i < k → k < j → isSyncPoint (s.answer k) = false := by
  obtain ⟨count, hsync, -, hfirst⟩ := (s.skipped (i + 1)).exists_sync
  refine ⟨i + 1 + count, by omega, hsync.trans (s.skipped_skipped _ _), fun k hik hkj => ?_⟩
  obtain ⟨l, rfl⟩ := Nat.exists_eq_add_of_le (Nat.succ_le_of_lt hik)
  have hanswer := hfirst l (by omega)
  rwa [answer_skipped] at hanswer

end TokenStream

/-- How a reader ends that has been fed with the stream `s`: behind some of the answers, after a
lexical error behind this. -/
inductive Course.Ends {α : Type} (s : TokenStream) : EStateM.Result ParseError TokenStream α → Prop where
  | ok (a : α) (count : Nat) : Ends s (.ok a (s.skipped count))
  | lexical {error : LexicalError} {i : Nat} (h : s.answer i = .error error) :
    Ends s (.error (.lexical error) (s.skipped (i + 1)))
  | syntactic (error : SyntaxError) (count : Nat) : Ends s (.error (.syntactic error) (s.skipped count))

theorem Course.ends {α : Type} (c : Course α) (s : TokenStream) : Ends s (c.onStream s) := by
  -- Behind `count` answers the rest of the course goes on from there.
  have hfrom : ∀ count, Ends s (c.onStream (s.skipped count)) := by
    induction c with
    | done a => exact fun count => .ok a count
    | fail error => exact fun count => .syntactic error count
    | peek next ih =>
      intro count
      simp only [onStream, bind_apply, Parser.peek]
      cases hhead : (s.skipped count).head with
      | ok token => exact ih token count
      | error error =>
        rw [TokenStream.tail_skipped]
        exact .lexical hhead
    | pop next ih =>
      intro count
      simp only [onStream, bind_apply, Parser.pop]
      cases hhead : (s.skipped count).head with
      | ok token =>
        rw [TokenStream.tail_skipped]
        exact ih token (count + 1)
      | error error =>
        rw [TokenStream.tail_skipped]
        exact .lexical hhead
    | remaining next ih | line next ih => exact fun count => ih _ count
  exact hfrom 0

namespace Buffer
variable {α : Type} {b b' : Buffer} {s : TokenStream}

/-- What a parser raises: a failure of its buffer, or a syntax error. -/
inductive Raised where
  | failure (failure : Failure)
  | syntactic (error : SyntaxError)

/-- The error that a reader of a stream fails with. -/
def Raised.ofError : ParseError → Raised
  | .lexical error => .failure (.lexical error)
  | .syntactic error => .syntactic error

/-- Buffer and scanner together deliver the stream: nothing has been read ahead, or its first
token. -/
inductive Holds : Buffer → TokenStream → Prop where
  | empty (s : TokenStream) : Holds ⟨[], s⟩ s
  | ahead {s : TokenStream} {token : Token} (h : s.head = .ok token) : Holds ⟨[token], s.tail⟩ s

/-- The stream from the first token in the buffer on. The end of the input is not counted. -/
def upcoming (b : Buffer) : TokenStream :=
  match b.tokens with
  | [] => b.scanner
  | token :: _ =>
    if token.kind = .eof then b.scanner
    else ⟨.ok token :: b.scanner.pending, b.scanner.lastLine⟩

theorem Holds.upcoming (h : Holds b s) (hs : s.Genuine) : b.upcoming = s := by
  cases h with
  | empty => rfl
  | @ahead _ token hhead =>
    by_cases hend : token.kind = .eof
    · simp only [Buffer.upcoming, if_pos hend]
      exact TokenStream.tail_eq_self (hs.pending_eq_nil hhead hend)
    · simp only [Buffer.upcoming, if_neg hend]
      obtain ⟨pending, lastLine⟩ := s
      cases pending with
      | nil =>
        cases hhead
        exact absurd rfl hend
      | cons item pending =>
        obtain rfl : item = .ok token := hhead
        rfl

/-- What comes next is in the buffer after a look at it. -/
theorem Holds.peek_of_ok (h : Holds b s) {token : Token} (hhead : s.head = .ok token) :
    b.peek = .ok token ⟨[token], s.tail⟩ := by
  cases h with
  | empty => simp only [peek, bind_apply, fill, hhead, first]
  | ahead hother =>
    obtain rfl : _ = token := Except.ok.inj (hother.symm.trans hhead)
    rfl

/-- A lexical error is passed over when it is met. -/
theorem Holds.peek_of_error (h : Holds b s) {error : LexicalError} (hhead : s.head = .error error) :
    b.peek = .error (.lexical error) ⟨[], s.tail⟩ := by
  cases h with
  | empty => simp only [peek, bind_apply, fill, hhead]
  | ahead hother =>
    rw [hother] at hhead
    cases hhead

theorem Holds.pop_of_ok (h : Holds b s) {token : Token} (hhead : s.head = .ok token) :
    b.pop = .ok token ⟨[], s.tail⟩ := by
  rw [pop, bind_of_ok (h.peek_of_ok hhead)]
  rfl

theorem Holds.pop_of_error (h : Holds b s) {error : LexicalError} (hhead : s.head = .error error) :
    b.pop = .error (.lexical error) ⟨[], s.tail⟩ := by
  rw [pop, bind_of_error (h.peek_of_error hhead)]

/-- A step with the buffer as a step of a parser. -/
def raising (x : EStateM Failure Buffer α) : EStateM Raised Buffer α := fun b =>
  match x b with
  | .ok a b => .ok a b
  | .error failure b => .error (.failure failure) b

end Buffer

namespace Course
open Buffer
variable {α : Type} {b b' : Buffer} {s : TokenStream}

/-- The course followed on a buffer and the scanner behind it. -/
def onBuffer : Course α → EStateM Raised Buffer α
  | done a => pure a
  | fail error => throw (.syntactic error)
  | peek next => do (next (← raising Buffer.peek)).onBuffer
  | pop next => do (next (← raising Buffer.pop)).onBuffer
  | remaining next => fun b => (next b.upcoming.remaining).onBuffer b
  | line next => fun b => (next b.upcoming.line).onBuffer b

/-- A reader of a buffer has ended like one of a stream, and the buffer holds what that one has
left. Behind a lexical error nothing has been read ahead. -/
inductive Agrees : EStateM.Result Raised Buffer α → EStateM.Result ParseError TokenStream α → Prop where
  | ok {a : α} {b : Buffer} {s : TokenStream} (h : Holds b s) : Agrees (.ok a b) (.ok a s)
  | lexical (error : LexicalError) (s : TokenStream) :
    Agrees (.error (.failure (.lexical error)) ⟨[], s⟩) (.error (.lexical error) s)
  | syntactic {error : SyntaxError} {b : Buffer} {s : TokenStream} (h : Holds b s) :
    Agrees (.error (.syntactic error) b) (.error (.syntactic error) s)

/-- Whatever a reader asks for, it gets the same answer from a stream and from a buffer that holds
this. -/
theorem agrees (c : Course α) (h : Holds b s) (hs : s.Genuine) :
    Agrees (c.onBuffer b) (c.onStream s) := by
  induction c generalizing b s with
  | done a => exact .ok h
  | fail error => exact .syntactic h
  | peek next ih =>
    simp only [onBuffer, onStream, bind_apply, raising, Parser.peek]
    cases hhead : s.head with
    | ok token =>
      rw [h.peek_of_ok hhead]
      exact ih token (.ahead hhead) hs
    | error error =>
      rw [h.peek_of_error hhead]
      exact .lexical error _
  | pop next ih =>
    simp only [onBuffer, onStream, bind_apply, raising, Parser.pop]
    cases hhead : s.head with
    | ok token =>
      rw [h.pop_of_ok hhead]
      exact ih token (.empty _) hs.tail
    | error error =>
      rw [h.pop_of_error hhead]
      exact .lexical error _
  | remaining next ih | line next ih =>
    simp only [onBuffer, onStream, h.upcoming hs]
    exact ih _ h hs

end Course

namespace Buffer
variable {b b' : Buffer} {s : TokenStream} {skip : Bool}

/-- Whether reading can go on at the next token. -/
def atStop : EStateM Failure Buffer Bool := do
  return (← peek).kind.isSyncPoint

/-- Drops the next token if `skip`, and says whether reading can go on at the one that follows. -/
def tryStop (skip : Bool) : EStateM Failure Buffer Bool := do
  if skip then let _ ← pop
  atStop

/-- How much is left of the buffer and the scanner. -/
def left (b : Buffer) : Nat :=
  b.tokens.length + b.scanner.remaining

theorem left_peek (b : Buffer) :
    (∃ token b', b.peek = .ok token b' ∧ (b'.left = b.left ∨ token.kind = .eof)) ∨
      ∃ failure b', b.peek = .error failure b' ∧ b'.left < b.left := by
  obtain ⟨tokens, pending, lastLine⟩ := b
  cases tokens with
  | cons token tokens => exact .inl ⟨token, _, rfl, .inl rfl⟩
  | nil =>
    cases pending with
    | nil => exact .inl ⟨_, _, rfl, .inr rfl⟩
    | cons item pending =>
      cases item with
      | ok token => exact .inl ⟨token, _, rfl, .inl (by simp [left, TokenStream.remaining, Nat.add_comm])⟩
      | error error => exact .inr ⟨_, _, rfl, by simp [left, TokenStream.remaining]⟩

theorem left_pop (b : Buffer) :
    (∃ token b', b.pop = .ok token b' ∧
        (b'.left < b.left ∨ b'.tokens = [] ∧ b'.scanner.pending = [])) ∨
      ∃ failure b', b.pop = .error failure b' ∧ b'.left < b.left := by
  obtain ⟨tokens, pending, lastLine⟩ := b
  cases tokens with
  | cons token tokens => exact .inl ⟨token, _, rfl, .inl (by simp [left])⟩
  | nil =>
    cases pending with
    | nil => exact .inl ⟨_, _, rfl, .inr ⟨rfl, rfl⟩⟩
    | cons item pending =>
      cases item with
      | ok token => exact .inl ⟨token, _, rfl, .inl (by simp [left, TokenStream.remaining])⟩
      | error error => exact .inr ⟨_, _, rfl, by simp [left, TokenStream.remaining]⟩

theorem left_atStop (b : Buffer) :
    (∃ b', b.atStop = .ok true b') ∨ (∃ b', b.atStop = .ok false b' ∧ b'.left = b.left) ∨
      ∃ failure b', b.atStop = .error failure b' ∧ b'.left < b.left := by
  rcases left_peek b with ⟨token, b', hpeek, hleft⟩ | ⟨failure, b', hpeek, hleft⟩
  · have hstop : b.atStop = .ok token.kind.isSyncPoint b' := bind_of_ok hpeek _
    cases hpoint : token.kind.isSyncPoint with
    | true => exact .inl ⟨b', by rw [hstop, hpoint]⟩
    | false =>
      refine .inr (.inl ⟨b', by rw [hstop, hpoint], hleft.resolve_right fun hend => ?_⟩)
      rw [hend] at hpoint
      cases hpoint
  · exact .inr (.inr ⟨failure, b', bind_of_error hpeek _, hleft⟩)

/-- If reading cannot go on yet, less is left, or the next token has still to be dropped. -/
theorem left_tryStop (skip : Bool) (b : Buffer) :
    (∃ b', tryStop skip b = .ok true b') ∨
      (∃ b', tryStop skip b = .ok false b' ∧ b'.left ≤ b.left ∧ (skip = true → b'.left < b.left)) ∨
      ∃ failure b', tryStop skip b = .error failure b' ∧ b'.left < b.left := by
  cases skip with
  | false =>
    rcases left_atStop b with h | ⟨b', hstop, hleft⟩ | h
    · exact .inl h
    · exact .inr (.inl ⟨b', hstop, Nat.le_of_eq hleft, nofun⟩)
    · exact .inr (.inr h)
  | true =>
    rcases left_pop b with ⟨token, b', hpop, hleft⟩ | ⟨failure, b', hpop, hleft⟩
    · have htry : tryStop true b = b'.atStop := bind_of_ok hpop _
      rw [htry]
      rcases hleft with hless | ⟨htokens, hpending⟩
      · rcases left_atStop b' with h | ⟨b'', hstop, hsame⟩ | ⟨failure, b'', hstop, hlast⟩
        · exact .inl h
        · exact .inr (.inl ⟨b'', hstop, by omega, fun _ => by omega⟩)
        · exact .inr (.inr ⟨failure, b'', hstop, by omega⟩)
      · obtain ⟨tokens, pending, lastLine⟩ := b'
        obtain rfl : tokens = [] := htokens
        obtain rfl : pending = [] := hpending
        exact .inl ⟨_, rfl⟩
    · exact .inr (.inr ⟨failure, b', bind_of_error hpop _, hleft⟩)

/-- Drops the next token if `skip`, and then everything up to the next point at which reading can go
on. A lexical error has been passed over when it is met, so nothing is dropped behind it. -/
def synchronize (skip : Bool) (b : Buffer) : EStateM.Result Failure Buffer Unit :=
  match _htry : tryStop skip b with
  | .ok true b' => .ok () b'
  | .ok false b' => synchronize true b'
  | .error (.lexical _) b' => synchronize false b'
  | .error .empty b' => .error .empty b'
termination_by 2 * b.left + if skip then 0 else 1
decreasing_by
  · rcases left_tryStop skip b with ⟨b'', h⟩ | ⟨b'', h, hle, hless⟩ | ⟨failure, b'', h, hless⟩ <;>
      rw [_htry] at h <;> cases h
    cases skip
    · simp
      omega
    · simp
      exact hless rfl
  · rcases left_tryStop skip b with ⟨b'', h⟩ | ⟨b'', h, hle, hless⟩ | ⟨failure, b'', h, hless⟩ <;>
      rw [_htry] at h <;> cases h
    cases skip <;> simp <;> omega

theorem synchronize_of_stop (h : tryStop skip b = .ok true b') : synchronize skip b = .ok () b' := by
  rw [synchronize]
  split <;> rename_i heq <;> rw [h] at heq <;> cases heq
  rfl

theorem synchronize_of_ok (h : tryStop skip b = .ok false b') :
    synchronize skip b = synchronize true b' := by
  rw [synchronize]
  split <;> rename_i heq <;> rw [h] at heq <;> cases heq
  rfl

theorem synchronize_of_error {error : LexicalError}
    (h : tryStop skip b = .error (.lexical error) b') :
    synchronize skip b = synchronize false b' := by
  rw [synchronize]
  split <;> rename_i heq <;> rw [h] at heq <;> cases heq
  rfl

/-- What a look at the next token says of a stream. -/
theorem Holds.atStop (h : Holds b s) :
    b.atStop = match s.head with
      | .ok token => .ok token.kind.isSyncPoint ⟨[token], s.tail⟩
      | .error error => .error (.lexical error) ⟨[], s.tail⟩ := by
  cases hhead : s.head with
  | ok token => exact bind_of_ok (h.peek_of_ok hhead) _
  | error error => exact bind_of_error (h.peek_of_error hhead) _

/-- The stream that synchronizing begins with. -/
def dropped (skip : Bool) (s : TokenStream) : TokenStream :=
  if skip then s.tail else s

theorem remaining_dropped_le (skip : Bool) (s : TokenStream) :
    (dropped skip s).remaining ≤ s.remaining := by
  cases skip with
  | false => exact Nat.le_refl _
  | true => exact s.remaining_tail_le

/-- Where something is left, the next round begins with less. -/
theorem remaining_dropped_lt (h : (dropped skip s).pending ≠ []) :
    2 * (dropped skip s).remaining < 2 * s.remaining + (if skip then 0 else 1) := by
  cases skip with
  | false => simp [dropped]
  | true =>
    have hpos : s.tail.remaining ≠ 0 := fun hnil => h (TokenStream.pending_eq_nil_iff.mpr hnil)
    have hsame : (dropped true s).remaining = s.remaining - 1 := s.remaining_tail
    rw [TokenStream.remaining_tail] at hpos
    simp only [hsame, if_true]
    omega

theorem Holds.tryStop (h : Holds b s) (hhead : skip = true → ∃ token, s.head = .ok token) :
    b.tryStop skip = match (dropped skip s).head with
      | .ok token => .ok token.kind.isSyncPoint ⟨[token], (dropped skip s).tail⟩
      | .error error => .error (.lexical error) ⟨[], (dropped skip s).tail⟩ := by
  cases skip with
  | false => exact h.atStop
  | true =>
    obtain ⟨token, hhead⟩ := hhead rfl
    exact (bind_of_ok (h.pop_of_ok hhead) _).trans (Holds.empty s.tail).atStop

/-- Synchronizing comes to an end. Then the first token at which reading can go on is in the buffer,
and no other one. -/
theorem Holds.synchronize (h : Holds b s) (skip : Bool) :
    ∃ token, (dropped skip s).sync.head = .ok token ∧ token.kind.isSyncPoint = true ∧
      b.synchronize skip = .ok () ⟨[token], (dropped skip s).sync.tail⟩ := by
  induction hsize : 2 * s.remaining + (if skip then 0 else 1) using Nat.strongRecOn
    generalizing b s skip with
  | ind size ih =>
    subst hsize
    by_cases hhead : skip = true → ∃ token, s.head = .ok token
    · have htry := h.tryStop hhead
      have hle := remaining_dropped_le skip s
      rw [TokenStream.sync_eq]
      cases hnext : (dropped skip s).head with
      | ok token =>
        simp only [hnext] at htry
        cases hpoint : token.kind.isSyncPoint with
        | true =>
          rw [hpoint] at htry
          rw [if_pos (by exact hpoint), hnext]
          exact ⟨token, rfl, hpoint, synchronize_of_stop htry⟩
        | false =>
          have hpending : (dropped skip s).pending ≠ [] :=
            TokenStream.pending_ne_nil_of_isSyncPoint (by rw [hnext]; exact hpoint)
          have hless := remaining_dropped_lt hpending
          rw [hpoint] at htry
          obtain ⟨other, hfirst, hstop, hsync⟩ := ih _ (by simpa using hless) (.ahead hnext) true rfl
          rw [if_neg (by simpa [TokenStream.isSyncPoint] using hpoint), synchronize_of_ok htry]
          exact ⟨other, hfirst, hstop, hsync⟩
      | error error =>
        simp only [hnext] at htry
        have hpos := TokenStream.remaining_pos_of_error hnext
        have hless : 2 * (dropped skip s).tail.remaining + 1 <
            2 * s.remaining + (if skip then 0 else 1) := by
          rw [TokenStream.remaining_tail]
          omega
        obtain ⟨other, hfirst, hstop, hsync⟩ := ih _ (by simpa using hless) (.empty _) false rfl
        rw [if_neg (by simp [TokenStream.isSyncPoint]), synchronize_of_error htry]
        exact ⟨other, hfirst, hstop, hsync⟩
    · -- The token to be dropped is a lexical error.
      obtain ⟨rfl, hnone⟩ := Classical.not_imp.mp hhead
      cases hfirst : s.head with
      | ok token => exact absurd ⟨token, hfirst⟩ hnone
      | error error =>
        have htry : b.tryStop true = .error (.lexical error) ⟨[], s.tail⟩ :=
          bind_of_error (h.pop_of_error hfirst) _
        have hpos := TokenStream.remaining_pos_of_error hfirst
        have hless : 2 * s.tail.remaining + 1 < 2 * s.remaining := by
          rw [TokenStream.remaining_tail]
          omega
        obtain ⟨other, hfirst, hstop, hsync⟩ := ih _ (by simpa using hless) (.empty s.tail) false rfl
        rw [synchronize_of_error htry]
        exact ⟨other, hfirst, hstop, hsync⟩

end Buffer

end Lox
