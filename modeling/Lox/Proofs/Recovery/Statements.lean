import Lox.Proofs.Recovery.Progress

/-!
# Calls of a parser with a buffer

A parser is called for one statement after the other, and every call may raise an error. The calls
give the statements and errors of the stream. Behind an error the parser stands at the first token
behind the offending one at which a statement may start or the input ends.
-/
namespace Lox
open Outcome

namespace Buffer
variable {depth : Nat} {c : Course (Stmt Unit)} {b b' : Buffer} {s rest : TokenStream}

/-- What becomes of the reading of a statement. An error is raised again when the parser has
synchronized: behind a lexical error there is nothing to drop, otherwise the offending token is still
there. -/
def settle : EStateM.Result Raised Buffer (Stmt Unit) → EStateM.Result Raised Buffer (Stmt Unit)
  | .ok statement b => .ok statement b
  | .error (.failure .empty) b => .error (.failure .empty) b
  | .error (.failure (.lexical error)) b =>
    match synchronize false b with
    | .ok () b' => .error (.failure (.lexical error)) b'
    | .error failure b' => .error (.failure failure) b'
  | .error (.syntactic error) b =>
    match synchronize true b with
    | .ok () b' => .error (.syntactic error) b'
    | .error failure b' => .error (.failure failure) b'

/-- The next statement. -/
def nextStatement (c : Course (Stmt Unit)) : EStateM Raised Buffer (Stmt Unit) := fun b =>
  settle (c.onBuffer b)

/-- The buffer behind some calls, however they have ended. -/
def after (c : Course (Stmt Unit)) : Nat → Buffer → Buffer
  | 0, b => b
  | calls + 1, b => after c calls (final (nextStatement c b))

/-- What a call has given: a statement, or the error that it has raised. -/
def outcome : EStateM.Result Raised Buffer (Stmt Unit) → Except Raised (Stmt Unit)
  | .ok statement _ => .ok statement
  | .error raised _ => .error raised

/-- What some calls give, one after the other. -/
def answers (c : Course (Stmt Unit)) : Nat → Buffer → List (Except Raised (Stmt Unit))
  | 0, _ => []
  | calls + 1, b => outcome (nextStatement c b) :: answers c calls (final (nextStatement c b))

section Settling
variable {r : EStateM.Result Raised Buffer (Stmt Unit)} {error : ParseError} {statement : Stmt Unit}

/-- A reading that fails leaves the one token at which reading goes on. -/
theorem settle_of_error (h : Course.Agrees r (Parser.statement depth s))
    (htake : s.takeStatement depth = (.error error, rest)) :
    ∃ token, rest.head = .ok token ∧ token.kind.isSyncPoint = true ∧
      settle r = .error (.ofError error) ⟨[token], rest.tail⟩ := by
  unfold TokenStream.takeStatement at htake
  generalize Parser.statement depth s = r' at h htake
  cases h with
  | ok => cases htake
  | lexical error' s' =>
    obtain ⟨rfl, rfl⟩ : ParseError.lexical error' = error ∧ s'.sync = rest := by
      cases htake
      exact ⟨rfl, rfl⟩
    obtain ⟨token, hhead, hpoint, hsync⟩ := (Holds.empty s').synchronize false
    exact ⟨token, hhead, hpoint, by simp only [settle, hsync]; rfl⟩
  | @syntactic error' b' s' hholds =>
    obtain ⟨rfl, rfl⟩ : ParseError.syntactic error' = error ∧ s'.tail.sync = rest := by
      cases htake
      exact ⟨rfl, rfl⟩
    obtain ⟨token, hhead, hpoint, hsync⟩ := hholds.synchronize true
    exact ⟨token, hhead, hpoint, by simp only [settle, hsync]; rfl⟩

theorem settle_of_ok (h : Course.Agrees r (Parser.statement depth s))
    (htake : s.takeStatement depth = (.ok statement, rest)) :
    ∃ b', settle r = .ok statement b' ∧ Holds b' rest := by
  unfold TokenStream.takeStatement at htake
  generalize Parser.statement depth s = r' at h htake
  cases h with
  | ok hholds =>
    cases htake
    exact ⟨_, rfl, hholds⟩
  | lexical | syntactic => cases htake

/-- A reading gives what the stream hands out, and the buffer holds the rest of it. -/
theorem settle_agrees (h : Course.Agrees r (Parser.statement depth s)) :
    outcome (settle r) = (s.takeStatement depth).1.mapError .ofError ∧
      Holds (final (settle r)) (s.takeStatement depth).2 := by
  cases htake : s.takeStatement depth with
  | mk item rest =>
    cases item with
    | ok statement =>
      obtain ⟨b', hcall, hholds⟩ := settle_of_ok h htake
      rw [hcall]
      exact ⟨rfl, hholds⟩
    | error error =>
      obtain ⟨token, hhead, -, hcall⟩ := settle_of_error h htake
      rw [hcall]
      exact ⟨rfl, .ahead hhead⟩

end Settling

theorem Holds.agrees_statement (h : Holds b s) (hs : s.Genuine)
    (hc : c.onStream = Parser.statement depth) :
    Course.Agrees (c.onBuffer b) (Parser.statement depth s) :=
  hc ▸ c.agrees h hs

/-- A call gives what the stream hands out, and the buffer holds the rest of it. -/
theorem Holds.nextStatement (h : Holds b s) (hs : s.Genuine)
    (hc : c.onStream = Parser.statement depth) :
    outcome (nextStatement c b) = (s.takeStatement depth).1.mapError .ofError ∧
      Holds (final (nextStatement c b)) (s.takeStatement depth).2 :=
  settle_agrees (h.agrees_statement hs hc)

/-- All calls give what the stream hands out. -/
theorem Holds.answers (h : Holds b s) (hs : s.Genuine) (hc : c.onStream = Parser.statement depth)
    (calls : Nat) :
    Buffer.answers c calls b = (s.taken depth calls).map fun item => item.mapError .ofError := by
  induction calls generalizing b s with
  | zero => rfl
  | succ calls ih =>
    obtain ⟨houtcome, hholds⟩ := h.nextStatement hs hc
    rw [Buffer.answers, TokenStream.taken, List.map_cons, houtcome, ih hholds (hs.takeStatement depth)]

/-- What a stream hands out is taken from its front. -/
theorem exists_skipped (hc : c.onStream = Parser.statement depth) (s : TokenStream) :
    ∃ count, (s.takeStatement depth).2 = s.skipped count := by
  have hends := c.ends s
  rw [hc] at hends
  unfold TokenStream.takeStatement
  generalize Parser.statement depth s = r at hends ⊢
  cases hends with
  | ok a count => exact ⟨count, rfl⟩
  | @lexical error i h =>
    obtain ⟨j, -, hsync, -⟩ := s.exists_sync_behind i
    exact ⟨j, hsync⟩
  | «syntactic» error i =>
    obtain ⟨j, -, hsync, -⟩ := s.exists_sync_behind i
    rw [← TokenStream.tail_skipped] at hsync
    exact ⟨j, hsync⟩

/-- Behind some calls the buffer still holds a rest of the stream. -/
theorem Holds.after (h : Holds b s) (hs : s.Genuine) (hc : c.onStream = Parser.statement depth)
    (calls : Nat) : ∃ count, Holds (Buffer.after c calls b) (s.skipped count) := by
  induction calls generalizing b s with
  | zero => exact ⟨0, h⟩
  | succ calls ih =>
    obtain ⟨-, hholds⟩ := h.nextStatement hs hc
    obtain ⟨count, hskipped⟩ := exists_skipped hc s
    rw [hskipped] at hholds
    obtain ⟨more, hrest⟩ := ih hholds (hs.skipped count)
    rw [TokenStream.skipped_skipped] at hrest
    exact ⟨_, hrest⟩

/-- A parser that has been fed with the stream `s` stands with an error at the offending answer `i`:
in front of a token, of which it holds the stream, or behind a span that is no token. -/
inductive OffendsAt (s : TokenStream) (i : Nat) : Raised → Buffer → Prop where
  | lexical {error : LexicalError} (h : s.answer i = .error error) :
    OffendsAt s i (.failure (.lexical error)) ⟨[], s.skipped (i + 1)⟩
  | syntactic {token : Token} (error : SyntaxError) {b : Buffer} (h : s.answer i = .ok token)
    (hb : Holds b (s.skipped i)) : OffendsAt s i (.syntactic error) b

/-- A reading of a statement that raises, unless the nesting is too deep, has met an offending
answer. The stream is synchronized behind it. -/
theorem Holds.offends (h : Holds b s) (hs : s.Genuine) (hc : c.onStream = Parser.statement depth)
    {error : ParseError} (htake : s.takeStatement depth = (.error error, rest))
    (hdeep : ∀ line, error ≠ .syntactic ⟨.tooDeep, line⟩) :
    ∃ i b', c.onBuffer b = .error (.ofError error) b' ∧ OffendsAt s i (.ofError error) b' ∧
      rest = (s.skipped (i + 1)).sync := by
  have hagrees := c.agrees h hs
  have hends := c.ends s
  rw [hc] at hagrees hends
  unfold TokenStream.takeStatement at htake
  generalize c.onBuffer b = r at hagrees ⊢
  cases hrun : Parser.statement depth s with
  | ok statement s' =>
    rw [hrun] at htake
    cases htake
  | error error' s' =>
    rw [hrun] at htake hends hagrees
    cases htake
    cases hends with
    | @lexical failure i hanswer =>
      cases hagrees with
      | lexical => exact ⟨i, _, rfl, .lexical hanswer, rfl⟩
    | «syntactic» failure i =>
      cases hagrees with
      | @syntactic _ b' _ hholds =>
        have hcause : failure.cause ≠ .tooDeep := fun hcause =>
          hdeep failure.line (by rw [← hcause])
        obtain ⟨token, hhead⟩ := Parser.head_of_statement_error hrun hcause
        refine ⟨i, b', rfl, .syntactic failure hhead hholds, ?_⟩
        rw [← TokenStream.tail_skipped]
        rfl

/-- What there is when a call has raised. The parser has been fed with the stream `fresh`, it stood with
the buffer `before` and stands with the buffer `behind` now. -/
structure Stop (c : Course (Stmt Unit)) (depth : Nat) (fresh : TokenStream) (before : Buffer)
    (raised : Raised) (behind : Buffer) where
  /-- As many answers of the stream had been used up before the call. -/
  start : Nat
  /-- The answer of the stream that offends. -/
  offending : Nat
  /-- The answer at which reading goes on. -/
  point : Nat
  token : Token
  error : ParseError
  /-- With this buffer the reading of the statement fails, before the parser synchronizes. -/
  failed : Buffer
  holds : Holds before (fresh.skipped start)
  fails : c.onBuffer before = .error raised failed
  offends : OffendsAt fresh offending raised failed
  raised_eq : raised = .ofError error
  /-- The stream has the same error in the place of a statement. -/
  taken : (fresh.skipped start).takeStatement depth = (.error error, fresh.skipped point)
  /-- Reading goes on at the first point behind the offending answer. -/
  offending_lt : offending < point
  answer : fresh.answer point = .ok token
  isSyncPoint : token.kind.isSyncPoint = true
  first : ∀ k, offending < k → k < point → TokenStream.isSyncPoint (fresh.answer k) = false
  /-- This token is in the buffer, and the scanner delivers what comes after it. -/
  behind_eq : behind = ⟨[token], fresh.skipped (point + 1)⟩
  /-- All further calls give what those of a new parser would that begins there. -/
  goesOn : ∀ more, answers c more behind = answers c more ⟨[], fresh.skipped point⟩

end Buffer

end Lox
