import Lox.Proofs.Grammar.Accepting
import Lox.Proofs.Recovery.Readers

/-!
# Readers make progress

A loop of a reader goes on behind a comma, an operator or an opening parenthesis, which it takes, or
with a statement that does not begin at the end of the input. So every round takes something, and the
procedures of reading always end. A reader fails with a syntax error only while it looks at a token.
-/
namespace Lox
open Outcome Buffer Grammar

theorem TokenStream.remaining_skipped_le (count : Nat) (s : TokenStream) :
    (s.skipped count).remaining ≤ s.remaining := by
  induction count generalizing s with
  | zero => exact Nat.le_refl _
  | succ count ih => exact Nat.le_trans (ih s.tail) s.remaining_tail_le

namespace Procedure
variable {α β : Type} {p q : Procedure α} {kinds : List Kind} {b : Buffer} {s s' : TokenStream}
  {looks looked between : Prop}

theorem remaining_le {a : α} (h : p.onStream s = .ok a s') : s'.remaining ≤ s.remaining := by
  obtain ⟨count, hcount⟩ := p.exists_skipped s
  rw [h] at hcount
  obtain rfl : s' = s.skipped count := hcount
  exact s.remaining_skipped_le count

/-- Every round of a loop takes something from the stream, and at the end of the input there is no
further round. -/
structure Advances (step : β → Procedure (Option β)) : Prop where
  takes : ∀ {x y : β} {s s' : TokenStream}, s.Genuine → (step x).onStream s = .ok (some y) s' →
    s'.remaining < s.remaining
  ends : ∀ (x : β) {s : TokenStream}, s.pending = [] → (step x).onStream s = .ok none s

/-- A loop whose rounds begin with a token of some kinds. -/
theorem Advances.of_check (hkinds : kinds.contains .eof = false)
    (more : β → Token → Procedure (Option β)) : Advances fun x => do
      if ← check kinds then
        let token ← take
        more x token
      else return none where
  takes := by
    intro x y s s' hs hround
    simp only [onStream_bind, onStream_check, onStream_ite, onStream_take, onStream_pure] at hround
    obtain ⟨found, u, hcheck, hrest⟩ := bind_eq_ok.mp hround
    obtain ⟨token, hhead, hfound, rfl⟩ := check_eq_ok.mp hcheck
    cases found with
    | false => cases hrest
    | true =>
      obtain ⟨taken, v, hpop, hbehind⟩ := bind_eq_ok.mp hrest
      obtain ⟨-, rfl⟩ := pop_eq_ok.mp hpop
      have hkind : token.kind ≠ .eof := fun heq => by
        rw [heq, hkinds] at hfound
        cases hfound
      exact Nat.lt_of_le_of_lt (remaining_le hbehind) (remaining_tail_lt hhead hkind)
  ends := by
    intro x s hpending
    have hcheck : Parser.check kinds s = .ok false s :=
      check_eq_ok.mpr ⟨_, TokenStream.head_of_pending_eq_nil hpending, hkinds, rfl⟩
    simp only [onStream_bind, onStream_check, onStream_ite, onStream_pure]
    exact bind_of_ok hcheck _

/-- A loop whose rounds are statements before a brace or the end of the input. -/
theorem Advances.of_statement (depth : Nat) : Advances fun statements => do
    if ← check [.rightBrace, .eof] then return none
    else return some ((← statement depth) :: statements) where
  takes := by
    intro x y s s' hs hround
    simp only [onStream_bind, onStream_check, onStream_ite, onStream_statement, onStream_pure] at hround
    obtain ⟨found, u, hcheck, hrest⟩ := bind_eq_ok.mp hround
    obtain ⟨token, hhead, hfound, rfl⟩ := check_eq_ok.mp hcheck
    cases found with
    | true => cases hrest
    | false =>
      obtain ⟨read, v, hread, hbehind⟩ := bind_eq_ok.mp hrest
      cases hbehind
      have hpending : u.pending ≠ [] := fun hnil => by
        rw [TokenStream.head_of_pending_eq_nil hnil] at hhead
        cases hhead
        cases hfound
      have hless := hs.remaining_takeStatement_lt hpending depth
      rwa [takeStatement_of_ok hread] at hless
  ends := by
    intro x s hpending
    have hcheck : Parser.check [.rightBrace, .eof] s = .ok true s :=
      check_eq_ok.mpr ⟨_, TokenStream.head_of_pending_eq_nil hpending, rfl, rfl⟩
    simp only [onStream_bind, onStream_check, onStream_ite, onStream_pure]
    exact bind_of_ok hcheck _

/-- All rounds of all loops take something from the stream, and the procedure fails only behind a look
at the next token, unless the nesting is too deep. `looked` says that the next token has been looked
at before, and `looks` that it has been in the end. -/
def Steady (looks : Prop) : Prop → {α : Type} → Procedure α → Prop
  | looked, _, done _ => looks → looked
  | looked, _, fail error => error.cause = .tooDeep ∨ looked
  | _, _, peek next => ∀ token, (next token).Steady looks True
  | _, _, pop next => ∀ token, (next token).Steady looks False
  | looked, _, line next => ∀ n, (next n).Steady looks looked
  | _, _, loop step _ next =>
    (∀ x, (step x).Steady False False) ∧ Advances step ∧ ∀ x, (next x).Steady looks False

namespace Steady
variable {inner : Procedure (Expr Unit)}

theorem mono {looks' looked' : Prop} (hlooks : looks' → looks) (hlooked : looked → looked')
    (hp : p.Steady looks looked) : p.Steady looks' looked' := by
  induction p generalizing looked looked' with
  | done a => exact hlooked ∘ hp ∘ hlooks
  | fail error => exact hp.imp_right hlooked
  | peek next ih | pop next ih => exact fun token => ih token id (hp token)
  | line next ih => exact fun n => ih n hlooked (hp n)
  | loop step x next _ ih => exact ⟨hp.1, hp.2.1, fun x => ih x id (hp.2.2 x)⟩

theorem bind {f : α → Procedure β} (hp : p.Steady between looked)
    (hf : ∀ a, (f a).Steady looks between) : (p >>= f).Steady looks looked := by
  change (p.bind f).Steady looks looked
  induction p generalizing looked with
  | done a => exact (hf a).mono id hp
  | fail error => exact hp
  | peek next ih | pop next ih | line next ih => exact fun answer => ih answer (hp answer) hf
  | loop step x next _ ih => exact ⟨hp.1, hp.2.1, fun x => ih x (hp.2.2 x) hf⟩

theorem pure (h : looks → looked) (a : α) : (pure a : Procedure α).Steady looks looked :=
  h

theorem map (f : α → β) (hp : p.Steady True looked) : (f <$> p).Steady True looked :=
  hp.bind fun _ => pure id _

theorem ite {c : Prop} [Decidable c] (hp : p.Steady looks looked) (hq : q.Steady looks looked) :
    (if c then p else q).Steady looks looked := by
  split
  · exact hp
  · exact hq

theorem fail (h : looked) (error : SyntaxError) :
    (Procedure.fail error : Procedure α).Steady looks looked :=
  .inr h

theorem tooDeep : (tooDeep : Procedure α).Steady looks looked :=
  fun _ => .inl rfl

theorem look : look.Steady True looked :=
  fun _ h => h

theorem take : take.Steady False looked :=
  fun _ h => h

theorem check (kinds : List Kind) : (check kinds).Steady True looked :=
  look.bind fun _ => pure id _

theorem expect (expectation : Expectation) : (expect expectation).Steady False looked :=
  look.bind fun _ => ite take (fail trivial _)

theorem repeatWhile {step : β → Procedure (Option β)} (hstep : ∀ x, (step x).Steady False False)
    (hadvances : Advances step) (x : β) : (repeatWhile step x).Steady False looked :=
  ⟨hstep, hadvances, fun _ => id⟩

/-- A loop whose rounds begin with a token of some kinds. -/
theorem repeatBehind (hkinds : kinds.contains .eof = false) {more : β → Token → Procedure (Option β)}
    (hmore : ∀ x token, (more x token).Steady False False) (x : β) :
    (Procedure.repeatWhile (fun x => do
      if ← Procedure.check kinds then
        let token ← Procedure.take
        more x token
      else return none) x).Steady False looked := by
  refine repeatWhile (fun x => ?_) (.of_check hkinds more) x
  exact (check _).bind fun _ => ite (take.bind (hmore x)) (pure False.elim _)

theorem separated {item : Procedure α} (hitem : ∀ {looked}, item.Steady False looked) :
    (separated item).Steady False looked := by
  refine hitem.bind fun first => (repeatBehind rfl (fun items _ => ?_) [first]).bind fun _ => pure id _
  exact hitem.bind fun _ => pure id _

theorem list {item : Procedure α} (hitem : ∀ {looked}, item.Steady False looked) :
    (list item).Steady False looked :=
  (check _).bind fun _ => ite (pure False.elim _) (separated hitem)

theorem climb (hinner : ∀ {looked}, inner.Steady False looked) (tighter : List Parser.Level)
    (hkinds : ∀ level ∈ tighter, level.kinds.contains .eof = false) :
    (climb inner tighter).Steady False looked := by
  induction tighter generalizing looked with
  | nil => exact hinner
  | cons level tighter ih =>
    obtain ⟨hlevel, htighter⟩ := List.forall_mem_cons.mp hkinds
    refine (ih htighter).bind fun first => repeatBehind hlevel (fun left operator => ?_) first
    exact (ih htighter).bind fun _ => pure id _

theorem primary (hinner : ∀ {looked}, inner.Steady True looked) :
    (primary inner).Steady False looked := by
  refine look.bind fun token => ?_
  split
  iterate 6 exact take.bind fun _ => pure id _
  · exact take.bind fun _ => hinner.bind fun _ => (expect _).bind fun _ => pure id _
  · exact fail trivial _

theorem call (hinner : ∀ {looked}, inner.Steady True looked) : (call inner).Steady False looked := by
  refine (primary hinner).bind fun callee => repeatBehind rfl (fun callee _ => ?_) callee
  exact (list (hinner.mono False.elim id)).bind fun _ => (expect _).bind fun _ => pure id _

theorem expression_unary (depth : Nat) :
    (∀ {looked}, (expression depth).Steady True looked) ∧
      ∀ {looked}, (unary depth).Steady False looked := by
  induction depth using Nat.strongRecOn with
  | ind depth ih =>
    constructor
    · intro looked
      cases depth with
      | zero =>
        unfold expression
        exact tooDeep
      | succ depth =>
        unfold expression
        refine (climb (ih depth (Nat.lt_succ_self _)).2 Parser.levels (by decide)).bind fun target => ?_
        refine (check _).bind fun _ => ite (take.bind fun equals => ?_) (pure id _)
        refine (ih depth (Nat.lt_succ_self _)).1.bind fun value => ?_
        cases target with
        | «variable» site name => exact pure id _
        | _ => exact fail trivial _
    · intro looked
      rcases depth with _ | _ | _ | _ | _ | _ | _ | _ | depth
      iterate 8 (unfold unary; exact tooDeep)
      unfold unary
      refine (check _).bind fun _ => ite (take.bind fun _ => ?_) ?_
      · exact (ih (depth + 7) (Nat.lt_succ_self _)).2.bind fun _ => pure id _
      · exact call (ih depth (by omega)).1

theorem block {depth : Nat} (hstatement : ∀ {looked}, (statement depth).Steady False looked) :
    (block (statement depth)).Steady False looked := by
  refine (repeatWhile (fun statements => ?_) (.of_statement depth) []).bind fun _ =>
    (expect _).bind fun _ => pure id _
  exact (check _).bind fun _ => ite (pure False.elim _) (hstatement.bind fun _ => pure id _)

theorem ended (hinner : ∀ {looked}, inner.Steady True looked) : (ended inner).Steady False looked :=
  hinner.bind fun _ => (expect _).bind fun _ => pure id _

theorem variableDeclaration (hinner : ∀ {looked}, inner.Steady True looked) :
    (variableDeclaration inner).Steady False looked := by
  refine take.bind fun _ => (expect _).bind fun name => (check _).bind fun _ => ite ?_ ?_
  · exact take.bind fun _ => (hinner.map _).bind fun _ => (expect _).bind fun _ => pure id _
  · exact bind (pure id _) fun _ => (expect _).bind fun _ => pure id _

theorem functionDeclaration {depth : Nat}
    (hstatement : ∀ {looked}, (statement depth).Steady False looked) :
    (functionDeclaration (statement depth)).Steady False looked := by
  refine take.bind fun _ => (expect _).bind fun name => (expect _).bind fun _ => ?_
  refine (list (expect _)).bind fun params => (expect _).bind fun _ => ?_
  exact (expect _).bind fun _ => (block hstatement).bind fun body => pure id _

theorem conditional {body : Procedure (Stmt Unit)} (hinner : ∀ {looked}, inner.Steady True looked)
    (hbody : ∀ {looked}, body.Steady False looked) : (conditional inner body).Steady False looked := by
  refine take.bind fun _ => (expect _).bind fun _ => hinner.bind fun condition => ?_
  refine (expect _).bind fun _ => hbody.bind fun yes => (check _).bind fun _ => ?_
  exact ite (take.bind fun _ => hbody.bind fun no => pure id _) (pure False.elim _)

theorem looping {body : Procedure (Stmt Unit)} (hinner : ∀ {looked}, inner.Steady True looked)
    (hbody : ∀ {looked}, body.Steady False looked) : (looping inner body).Steady False looked := by
  refine take.bind fun _ => (expect _).bind fun _ => hinner.bind fun condition => ?_
  exact (expect _).bind fun _ => hbody.bind fun body => pure id _

theorem returning (hinner : ∀ {looked}, inner.Steady True looked) :
    (returning inner).Steady False looked := by
  refine take.bind fun keyword => (check _).bind fun _ => ite ?_ ?_
  · exact bind (pure id _) fun _ => (expect _).bind fun _ => pure id _
  · exact (hinner.map _).bind fun _ => (expect _).bind fun _ => pure id _

/-- The procedure that reads a statement is steady. -/
theorem statement (depth : Nat) : ∀ {looked}, (statement depth).Steady False looked := by
  induction depth with
  | zero => exact tooDeep
  | succ depth ih =>
    intro looked
    have hinner : ∀ {looked}, (expression depth).Steady True looked := (expression_unary depth).1
    refine look.bind fun token => ?_
    split
    · exact take.bind fun _ => pure id _
    · exact variableDeclaration hinner
    · exact functionDeclaration ih
    · exact take.bind fun _ => (block ih).bind fun body => pure id _
    · exact conditional hinner ih
    · exact looping hinner ih
    · exact take.bind fun _ => (ended hinner).bind fun _ => pure id _
    · exact take.bind fun _ => (ended hinner).bind fun _ => pure id _
    · exact returning hinner
    · exact (ended hinner).bind fun _ => pure id _

end Steady

/-- The procedure ends on every buffer, in the same way as on the stream that the buffer holds. -/
def Ends (p : Procedure α) : Prop :=
  ∀ {b : Buffer} {s : TokenStream}, Holds b s → s.Genuine →
    ∃ r, Runs p b r ∧ Course.Agrees r (p.onStream s)

/-- A loop ends of its own accord before its bound is reached: less remains after every round. -/
theorem ends_loop {step : β → Procedure (Option β)} {next : β → Procedure α}
    (hstep : ∀ x, (step x).Ends) (hadvances : Advances step) (hnext : ∀ x, (next x).Ends) (fuel : Nat)
    (x : β) (h : Holds b s) (hs : s.Genuine) (hfuel : s.remaining ≤ fuel) :
    ∃ r, Runs (.loop step x next) b r ∧
      Course.Agrees r ((Parser.repeatUpTo (fun x => (step x).onStream) fuel x >>=
        fun x => (next x).onStream) s) := by
  induction fuel generalizing x b s with
  | zero =>
    have hend := hadvances.ends x (TokenStream.pending_eq_nil_iff.mpr (Nat.le_zero.mp hfuel))
    obtain ⟨r, hround, hagrees⟩ := hstep x h hs
    rw [hend] at hagrees
    cases hagrees with
    | ok h' =>
      obtain ⟨r, hruns, hagrees⟩ := hnext x h' hs
      exact ⟨r, .loopDone hround hruns, hagrees⟩
  | succ fuel ih =>
    obtain ⟨count, hcount⟩ := (step x).exists_skipped s
    obtain ⟨r, hround, hagrees⟩ := hstep x h hs
    simp only [Parser.repeatUpTo, bind_apply]
    cases hrun : (step x).onStream s with
    | ok answer s' =>
      rw [hrun] at hcount hagrees
      obtain rfl : s' = s.skipped count := hcount
      cases hagrees with
      | ok h' =>
        cases answer with
        | none =>
          obtain ⟨r, hruns, hagrees⟩ := hnext x h' (hs.skipped count)
          exact ⟨r, .loopDone hround hruns, hagrees⟩
        | some y =>
          have hless := hadvances.takes hs hrun
          obtain ⟨r, hruns, hagrees⟩ := ih y h' (hs.skipped count) (by omega)
          exact ⟨r, .loopMore hround hruns, hagrees⟩
    | error error s' =>
      rw [hrun] at hagrees
      cases hagrees with
      | lexical => exact ⟨_, .loopError hround, .lexical _ _⟩
      | «syntactic» h' => exact ⟨_, .loopError hround, .syntactic h'⟩

/-- A steady procedure always ends. -/
theorem Steady.ends (hp : p.Steady looks looked) : p.Ends := by
  induction p generalizing looks looked with
  | done a => exact fun h hs => ⟨_, .done, .ok h⟩
  | fail error => exact fun h hs => ⟨_, .fail, .syntactic h⟩
  | peek next ih =>
    intro b s h hs
    simp only [onStream, bind_apply, Parser.peek]
    cases hhead : s.head with
    | ok token =>
      obtain ⟨r, hruns, hagrees⟩ := ih token (hp token) (.ahead hhead) hs
      exact ⟨r, .peek (h.peek_of_ok hhead) hruns, hagrees⟩
    | error error => exact ⟨_, .peekError (h.peek_of_error hhead), .lexical error _⟩
  | pop next ih =>
    intro b s h hs
    simp only [onStream, bind_apply, Parser.pop]
    cases hhead : s.head with
    | ok token =>
      obtain ⟨r, hruns, hagrees⟩ := ih token (hp token) (.empty _) hs.tail
      exact ⟨r, .pop (h.pop_of_ok hhead) hruns, hagrees⟩
    | error error => exact ⟨_, .popError (h.pop_of_error hhead), .lexical error _⟩
  | line next ih =>
    intro b s h hs
    obtain ⟨r, hruns, hagrees⟩ := ih s.line (hp _) h hs
    exact ⟨r, .line (h.upcoming hs ▸ hruns), hagrees⟩
  | loop step x next ihstep ihnext =>
    obtain ⟨hsteady, hadvances, hnext⟩ := hp
    exact fun h hs => ends_loop (fun x => ihstep x (hsteady x)) hadvances
      (fun x => ihnext x (hnext x)) _ x h hs (Nat.le_refl _)

/-- With a syntax error a token is looked at. -/
theorem Steady.head_of_error (hp : p.Steady looks looked)
    (hlooked : looked → ∃ token, s.head = .ok token) {error : SyntaxError}
    (h : p.onStream s = .error (.syntactic error) s') (hdeep : error.cause ≠ .tooDeep) :
    ∃ token, s'.head = .ok token := by
  induction p generalizing looks looked s s' with
  | done a => cases h
  | fail _ =>
    cases h
    exact hlooked (hp.resolve_left hdeep)
  | peek next ih =>
    simp only [onStream, bind_apply, Parser.peek] at h
    cases hhead : s.head with
    | error e => simp [hhead] at h
    | ok token =>
      rw [hhead] at h
      exact ih token (hp token) (fun _ => ⟨token, hhead⟩) h
  | pop next ih =>
    simp only [onStream, bind_apply, Parser.pop] at h
    cases hhead : s.head with
    | error e => simp [hhead] at h
    | ok token =>
      rw [hhead] at h
      exact ih token (hp token) False.elim h
  | line next ih => exact ih _ (hp _) hlooked h
  | loop step x next ihstep ihnext =>
    obtain ⟨hstep, -, hnext⟩ := hp
    have hrounds : ∀ (fuel : Nat) x {s : TokenStream}, Parser.repeatUpTo (fun x => (step x).onStream)
        fuel x s = .error (.syntactic error) s' → ∃ token, s'.head = .ok token := by
      intro fuel
      induction fuel with
      | zero => exact fun x s h => by cases h
      | succ fuel ih =>
        intro x s h
        rcases bind_eq_error.mp h with hround | ⟨answer, t, -, hrest⟩
        · exact ihstep x (hstep x) False.elim hround
        · cases answer with
          | none => cases hrest
          | some y => exact ih y hrest
    rcases bind_eq_error.mp h with hloop | ⟨y, t, -, hbehind⟩
    · exact hrounds _ x hloop
    · exact ihnext y (hnext y) False.elim hbehind

end Procedure

namespace Parser
variable {depth : Nat} {s s' : TokenStream} {error : SyntaxError}

/-- When a statement is read and there is a syntax error, the reader is looking at a token. -/
theorem head_of_statement_error (h : statement depth s = .error (.syntactic error) s')
    (hdeep : error.cause ≠ .tooDeep) : ∃ token, s'.head = .ok token := by
  rw [← Procedure.onStream_statement] at h
  exact (Procedure.Steady.statement depth).head_of_error False.elim h hdeep

end Parser

end Lox
