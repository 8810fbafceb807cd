import Lox.Proofs.Recovery.Synchronizing

/-!
# Procedures of reading

A reader as a procedure: it looks at tokens and takes them, and its loops go on for as long as their
steps ask for it, without a bound. So a procedure could run for ever. If it is followed on a stream
with as many rounds of a loop as tokens and errors remain, it becomes a reader that always ends.
-/
namespace Lox
open Outcome Buffer

/-- What a reader does, with loops that are not bounded. -/
inductive Procedure : Type → Type 1 where
  | done {α : Type} (a : α) : Procedure α
  | fail {α : Type} (error : SyntaxError) : Procedure α
  | peek {α : Type} (next : Token → Procedure α) : Procedure α
  | pop {α : Type} (next : Token → Procedure α) : Procedure α
  /-- Asks for the line that has been reached. -/
  | line {α : Type} (next : Int → Procedure α) : Procedure α
  /-- Does `step` over and over until it has nothing to add. -/
  | loop {α β : Type} (step : β → Procedure (Option β)) (b : β) (next : β → Procedure α) : Procedure α

namespace Procedure
variable {α β : Type}

/-- One procedure behind another. -/
def bind (f : α → Procedure β) : Procedure α → Procedure β
  | done a => f a
  | fail error => fail error
  | peek next => peek fun token => (next token).bind f
  | pop next => pop fun token => (next token).bind f
  | line next => line fun n => (next n).bind f
  | loop step b next => loop step b fun b => (next b).bind f

instance : Monad Procedure where
  pure := done
  bind p f := p.bind f

/-- The procedure followed on a stream, with as many rounds of a loop as tokens and errors remain. -/
def onStream : {α : Type} → Procedure α → Parser α
  | _, done a => pure a
  | _, fail error => throw (.syntactic error)
  | _, peek next => do (next (← Parser.peek)).onStream
  | _, pop next => do (next (← Parser.pop)).onStream
  | _, line next => fun s => (next s.line).onStream s
  | _, loop step b next => do (next (← Parser.repeatWhile (fun b => (step b).onStream) b)).onStream

@[simp] theorem onStream_pure (a : α) : (pure a : Procedure α).onStream = pure a := rfl

@[simp] theorem onStream_bind (p : Procedure α) (f : α → Procedure β) :
    (p >>= f).onStream = p.onStream >>= fun a => (f a).onStream := by
  change (p.bind f).onStream = _
  funext s
  induction p generalizing s with
  | done a => rfl
  | fail error => rfl
  | peek next ih | pop next ih =>
    simp only [bind, onStream, bind_apply]
    split
    · exact ih _ f _
    · rfl
  | line next ih => exact ih _ f s
  | loop step x next _ ih =>
    simp only [bind, onStream, bind_apply]
    split
    · exact ih _ f _
    · rfl

@[simp] theorem onStream_map (f : α → β) (p : Procedure α) :
    (f <$> p).onStream = f <$> p.onStream :=
  onStream_bind p fun a => pure (f a)

@[simp] theorem onStream_ite {c : Prop} [Decidable c] (p q : Procedure α) :
    (if c then p else q).onStream = if c then p.onStream else q.onStream := by
  split <;> rfl

/-- The course of the procedure on a stream. -/
def course : {α : Type} → Procedure α → Course α
  | _, done a => .done a
  | _, fail error => .fail error
  | _, peek next => .peek fun token => (next token).course
  | _, pop next => .pop fun token => (next token).course
  | _, line next => .line fun n => (next n).course
  | _, loop step b next => .remaining fun count =>
    (Course.repeatUpTo (fun b => (step b).course) count b).bind fun b => (next b).course

theorem onStream_course (p : Procedure α) : p.course.onStream = p.onStream := by
  induction p with
  | done a => rfl
  | fail error => rfl
  | peek next ih | pop next ih => simp only [course, Course.onStream, onStream, ih]
  | line next ih =>
    funext s
    exact congrFun (ih s.line) s
  | loop step x next ihstep ih =>
    funext s
    simp only [course, Course.onStream, Course.onStream_bind, Course.onStream_repeatUpTo, onStream, ihstep,
      ih]
    rfl

/-- The procedure leaves a rest of its stream. -/
theorem exists_skipped (p : Procedure α) (s : TokenStream) :
    ∃ count, final (p.onStream s) = s.skipped count := by
  have hends := p.course.ends s
  rw [onStream_course] at hends
  generalize p.onStream s = r at hends
  cases hends with
  | ok a count => exact ⟨count, rfl⟩
  | @lexical error i => exact ⟨i + 1, rfl⟩
  | «syntactic» error count => exact ⟨count, rfl⟩

/-- The procedure followed on a buffer and the scanner behind it: how it ends, if it ends. A loop has
as many rounds as its steps ask for. -/
inductive Runs : {α : Type} → Procedure α → Buffer → EStateM.Result Raised Buffer α → Prop where
  | done {α : Type} {a : α} {b : Buffer} : Runs (.done a) b (.ok a b)
  | fail {α : Type} {error : SyntaxError} {b : Buffer} :
    Runs (α := α) (.fail error) b (.error (.syntactic error) b)
  | peek {α : Type} {next : Token → Procedure α} {b b' : Buffer} {token : Token}
    {r : EStateM.Result Raised Buffer α} (h : b.peek = .ok token b') (hnext : Runs (next token) b' r) :
    Runs (.peek next) b r
  | peekError {α : Type} {next : Token → Procedure α} {b b' : Buffer} {failure : Failure}
    (h : b.peek = .error failure b') : Runs (.peek next) b (.error (.failure failure) b')
  | pop {α : Type} {next : Token → Procedure α} {b b' : Buffer} {token : Token}
    {r : EStateM.Result Raised Buffer α} (h : b.pop = .ok token b') (hnext : Runs (next token) b' r) :
    Runs (.pop next) b r
  | popError {α : Type} {next : Token → Procedure α} {b b' : Buffer} {failure : Failure}
    (h : b.pop = .error failure b') : Runs (.pop next) b (.error (.failure failure) b')
  | line {α : Type} {next : Int → Procedure α} {b : Buffer} {r : EStateM.Result Raised Buffer α}
    (hnext : Runs (next b.upcoming.line) b r) : Runs (.line next) b r
  | loopDone {α β : Type} {step : β → Procedure (Option β)} {x : β} {next : β → Procedure α}
    {b b' : Buffer} {r : EStateM.Result Raised Buffer α} (h : Runs (step x) b (.ok none b'))
    (hnext : Runs (next x) b' r) : Runs (.loop step x next) b r
  | loopMore {α β : Type} {step : β → Procedure (Option β)} {x y : β} {next : β → Procedure α}
    {b b' : Buffer} {r : EStateM.Result Raised Buffer α} (h : Runs (step x) b (.ok (some y) b'))
    (hrest : Runs (.loop step y next) b' r) : Runs (.loop step x next) b r
  | loopError {α β : Type} {step : β → Procedure (Option β)} {x : β} {next : β → Procedure α}
    {b b' : Buffer} {raised : Raised} (h : Runs (step x) b (.error raised b')) :
    Runs (.loop step x next) b (.error raised b')

/-- A procedure ends in one way only. -/
theorem Runs.unique {p : Procedure α} {b : Buffer} {r r' : EStateM.Result Raised Buffer α}
    (h : Runs p b r) (h' : Runs p b r') : r = r' := by
  induction h with
  | done | fail =>
    cases h'
    rfl
  | peek h _ ih =>
    cases h' with
    | peek h' hnext' =>
      cases h.symm.trans h'
      exact ih hnext'
    | peekError h' => cases h.symm.trans h'
  | pop h _ ih =>
    cases h' with
    | pop h' hnext' =>
      cases h.symm.trans h'
      exact ih hnext'
    | popError h' => cases h.symm.trans h'
  | peekError h =>
    cases h' with
    | peek h' => cases h.symm.trans h'
    | peekError h' =>
      cases h.symm.trans h'
      rfl
  | popError h =>
    cases h' with
    | pop h' => cases h.symm.trans h'
    | popError h' =>
      cases h.symm.trans h'
      rfl
  | line _ ih =>
    cases h' with
    | line hnext' => exact ih hnext'
  | loopDone _ _ ihstep ihnext =>
    cases h' with
    | loopDone h' hnext' =>
      cases ihstep h'
      exact ihnext hnext'
    | loopMore h' | loopError h' => cases ihstep h'
  | loopMore _ _ ihstep ihrest =>
    cases h' with
    | loopMore h' hrest' =>
      cases ihstep h'
      exact ihrest hrest'
    | loopDone h' | loopError h' => cases ihstep h'
  | loopError _ ihstep =>
    cases h' with
    | loopDone h' | loopMore h' => cases ihstep h'
    | loopError h' =>
      cases ihstep h'
      rfl

end Procedure

end Lox
