import Lox.Proofs.Scoping.Conduct
import Lox.Proofs.Scoping.Tables
import Lox.Proofs.Session.Histories

/-!
# An error of the text leaves no trace

A session may keep one resolver for all its statements, which writes the distances into the table
while it walks, takes them back at an error, and leaves all scopes in the end. Such a session goes
the same way as one that resolves every statement anew, since no two statements share a site. A
statement with an error of the text then leaves everything as it was but for one report.
-/
namespace Lox
open Outcome

namespace Walk

/-- A walk outside of everything: nothing is declared or initialized, and no function is open. -/
structure AtRest (w : Walk) : Prop where
  scopes : w.scopes = []
  initializing : w.initializing = none
  inFunction : w.inFunction = false

/-- The walk after a statement, wherever it has stopped: everything is left. -/
def left (w : Walk) : Walk :=
  { Walk.start with found := w.found }

/-- The table in the course of a walk that was begun with the table `d`. -/
def table (w : Walk) (d : Distances) : Distances :=
  d.record w.found.reverse

theorem atRest_start : start.AtRest := ⟨rfl, rfl, rfl⟩

theorem atRest_left (w : Walk) : w.left.AtRest := ⟨rfl, rfl, rfl⟩

/-- A walk at rest is ready for another statement. -/
theorem AtRest.eq_start {w : Walk} (h : w.AtRest) : { w with found := [] } = start := by
  obtain ⟨scopes, initializing, inFunction, found⟩ := w
  obtain ⟨rfl, rfl, rfl⟩ := h
  rfl

@[simp] theorem table_start (d : Distances) : start.table d = d := rfl

end Walk

/-- A session with the resolver that it keeps from statement to statement. -/
structure Tandem where
  session : Session
  walk : Walk

namespace Tandem

/-- Work of the session alone. -/
def alone {α : Type} (x : SessionM α) : EStateM Interruption Tandem α := fun a =>
  match x a.session with
  | .ok value s => .ok value ⟨s, a.walk⟩
  | .error interruption s => .error interruption ⟨s, a.walk⟩

/-- Numbers and resolves a statement. The kept walk goes through it from where it stands, and what
it finds is written into the table; an error takes all of it back. Either way everything is left. -/
def resolve (limits : Limits) (statement : Stmt Unit) :
    EStateM Interruption Tandem (Except ResolutionError (Stmt Site × List Binding)) := fun a =>
  let (numbered, after) := statement.number a.session.nextSite
  let written (w : Walk) : Session :=
    { a.session with
      nextSite := after
      machine := { a.session.machine with distances := w.table a.session.machine.distances } }
  let restored (w : Walk) : Session :=
    { a.session with
      machine := { a.session.machine with
        distances := (w.table a.session.machine.distances).forget w.found } }
  match Resolver.statement limits.scoping numbered { a.walk with found := [] } with
  | .ok _ w => .ok (.ok (numbered, w.found.reverse)) ⟨written w, w.left⟩
  | .error (.error error) w => .ok (.error error) ⟨restored w, w.left⟩
  | .error (.fault fault) w => .error (.fault fault) ⟨written w, w.left⟩

end Tandem

/-- What a session does in a step with a statement that has been resolved. -/
def Session.proceed (limits : Limits) (numbered : Stmt Site) (bindings : List Binding) (run : Bool)
    (rest : TokenStream) : SessionM (Status × TokenStream) := do
  if run then
    match ← execute limits numbered bindings with
    | .error error =>
      report error.diagnostic
      return (.runtimeError, rest)
    | .ok value =>
      if (← get).machine.done then return (.done, rest)
      keep numbered value
      return (.ok, rest)
  else
    forget (transient bindings)
    match numbered with
    | .endMarker => return (.done, rest)
    | _ => return (.ok, rest)

/-- The table has distances only at sites that are in use. -/
def Session.Numbered (s : Session) : Prop :=
  ∀ entry ∈ s.machine.distances.entries, entry.1 < s.nextSite

namespace Tandem

/-- One step of a session that keeps its resolver. -/
def step (limits : Limits) (stream : TokenStream) (run : Bool) :
    EStateM Interruption Tandem (Status × TokenStream) := do
  match stream.takeStatement limits.nesting with
  | (.error error, rest) =>
    alone (Session.report error.diagnostic)
    return (.grammarError, rest)
  | (.ok statement, rest) =>
    match ← resolve limits statement with
    | .error error =>
      alone (Session.report error.diagnostic)
      return (.grammarError, rest)
    | .ok (numbered, bindings) => alone (Session.proceed limits numbered bindings run rest)

/-- What can be seen of a run without the resolver. -/
def seen {α : Type} : EStateM.Result Interruption Tandem α → EStateM.Result Interruption Session α
  | .ok value a => .ok value a.session
  | .error interruption a => .error interruption a.session

@[simp] theorem seen_alone {α : Type} (x : SessionM α) (a : Tandem) :
    seen (alone x a) = x a.session := by
  unfold alone
  cases hx : x a.session <;> rfl

/-- Sessions and resolvers that come of new ones. Whatever stream a step reads from and however it
ends, the session may go on, also after it has been interrupted. -/
inductive Reachable : Tandem → Prop where
  | start {mode : Mode} {path : String} {clock : Nat → Float} {reporter : Reporter} {s : Session}
    (h : Session.start mode path clock reporter = .ok s) : Reachable ⟨s, .start⟩
  | quoteFrom {a : Tandem} (ha : Reachable a) (source : String) :
    Reachable (final (alone (Session.quoteFrom source) a))
  | step {a : Tandem} (ha : Reachable a) (limits : Limits) (stream : TokenStream) (run : Bool) :
    Reachable (final (step limits stream run a))
  | close {a : Tandem} (ha : Reachable a) : Reachable ⟨a.session.closed, a.walk⟩
  | pop {a : Tandem} (ha : Reachable a) : Reachable (final (alone Session.pop? a))
  | takeOutput {a : Tandem} (ha : Reachable a) : Reachable ⟨a.session.takeOutput.2, a.walk⟩
  | takeReports {a : Tandem} (ha : Reachable a) : Reachable ⟨a.session.takeReports.2, a.walk⟩

/-- What holds between two statements: the resolver is at rest, and the table knows only sites that
are in use. -/
structure Settled (a : Tandem) : Prop where
  atRest : a.walk.AtRest
  known : a.session.Numbered

section Steps
variable {limits : Limits} {statement : Stmt Unit} {stream rest : TokenStream} {run : Bool}
  {a : Tandem}

/-- Whatever a walk through a statement that has just been numbered has found, it has found at the
new numbers. -/
theorem Settled.found (depth : Nat) (statement : Stmt Unit) (next : Site) :
    ∀ b ∈ (final (Resolver.statement depth (statement.number next).1 .start)).found,
      next ≤ b.site ∧ b.site < (statement.number next).2 := by
  intro b hb
  rcases Resolver.FindsAt.statement_number depth statement next .start b hb with h | h
  · cases h
  · exact h

/-- Taking back what has been found leaves the table as it was before. -/
theorem Settled.restored (h : a.Settled) {depth : Nat} {w : Walk}
    (hw : final (Resolver.statement depth (statement.number a.session.nextSite).1 .start) = w) :
    (w.table a.session.machine.distances).forget w.found = a.session.machine.distances := by
  rw [Walk.table, ← Distances.forget_reverse]
  refine Distances.forget_record fun b hb entry hentry heq => ?_
  have hfound := Settled.found depth statement a.session.nextSite b
    (by rw [hw]; exact List.mem_reverse.mp hb)
  exact absurd hfound.1 (Nat.not_le.mpr (heq ▸ h.known entry hentry))

/-- What has been written stands at numbers that are in use then. -/
theorem Settled.written (h : a.Settled) {depth : Nat} {w : Walk}
    (hw : final (Resolver.statement depth (statement.number a.session.nextSite).1 .start) = w) :
    ∀ entry ∈ (w.table a.session.machine.distances).entries,
      entry.1 < (statement.number a.session.nextSite).2 := by
  intro entry hentry
  have hle := (statement.fresh_number .outermost a.session.nextSite).le
  rcases Distances.mem_entries_of_mem_record hentry with hold | ⟨b, hb, heq⟩
  · exact Nat.lt_of_lt_of_le (h.known entry hold) hle
  · rw [heq]
    exact (Settled.found depth statement a.session.nextSite b
      (by rw [hw]; exact List.mem_reverse.mp hb)).2

/-- Resolving in place does what resolving does, and leaves a settled session. -/
theorem Settled.resolve (h : a.Settled) (limits : Limits) (statement : Stmt Unit) :
    seen (resolve limits statement a) = Session.resolve limits statement a.session ∧
      (final (resolve limits statement a)).Settled := by
  have hstart : { a.walk with found := [] } = Walk.start := h.atRest.eq_start
  cases hnumber : statement.number a.session.nextSite with
  | mk numbered after =>
    have hnumbered : (statement.number a.session.nextSite).1 = numbered := by rw [hnumber]
    have hafter : (statement.number a.session.nextSite).2 = after := by rw [hnumber]
    cases hwalk : Resolver.statement limits.scoping numbered .start with
    | ok u w =>
      have hresolve : numbered.resolve limits.scoping = (.ok (), w.found.reverse) := by
        rw [Stmt.resolve, hwalk]
      have hfinal : final (Resolver.statement limits.scoping
          (statement.number a.session.nextSite).1 .start) = w := by
        rw [hnumbered, hwalk]
        rfl
      simp only [Tandem.resolve, hnumber, hstart, hwalk]
      refine ⟨(Session.resolve_of_ok hnumber hresolve).symm, w.atRest_left, ?_⟩
      exact hafter ▸ h.written hfinal
    | error failure w =>
      have hfinal : final (Resolver.statement limits.scoping
          (statement.number a.session.nextSite).1 .start) = w := by
        rw [hnumbered, hwalk]
        rfl
      cases failure with
      | error error =>
        have hresolve : numbered.resolve limits.scoping = (.error (.error error), []) := by
          rw [Stmt.resolve, hwalk]
        simp only [Tandem.resolve, hnumber, hstart, hwalk, h.restored hfinal]
        exact ⟨(Session.resolve_of_error hnumber hresolve).symm, w.atRest_left, h.known⟩
      | fault fault =>
        have hresolve : numbered.resolve limits.scoping =
            (.error (.fault fault), w.found.reverse) := by
          rw [Stmt.resolve, hwalk]
        simp only [Tandem.resolve, hnumber, hstart, hwalk]
        refine ⟨(Session.resolve_of_fault hnumber hresolve).symm, w.atRest_left, ?_⟩
        exact hafter ▸ h.written hfinal

/-- A block of steps is seen as the block of what is seen of the steps. -/
theorem seen_bind {α β : Type} {x : EStateM Interruption Tandem α} {y : SessionM α}
    {f : α → EStateM Interruption Tandem β} {g : α → SessionM β} (hx : seen (x a) = y a.session)
    (hf : ∀ value b, seen (f value b) = g value b.session) :
    seen ((x >>= f) a) = (y >>= g) a.session := by
  rw [bind_apply, bind_apply, ← hx]
  cases x a with
  | ok value b => exact hf value b
  | error interruption b => rfl

/-- Keeping the resolver makes no difference to a step. -/
theorem Settled.seen_step (h : a.Settled) (limits : Limits) (stream : TokenStream) (run : Bool) :
    seen (step limits stream run a) = Session.step limits stream run .byDistance a.session := by
  unfold Tandem.step Session.step
  cases stream.takeStatement limits.nesting with
  | mk item rest =>
    cases item with
    | error error => rfl
    | ok statement =>
      obtain ⟨hseen, -⟩ := h.resolve limits statement
      refine seen_bind hseen fun resolution b => ?_
      cases resolution with
      | error error => rfl
      | ok resolved => exact seen_alone _ b

end Steps

end Tandem

namespace Session
variable {s : Session} {limits : Limits} {numbered : Stmt Site} {bindings : List Binding}

/-- Execution and forgetting write no distances. -/
theorem Numbered.tended (h : s.Numbered) {m : Machine} (hm : m.distances = s.machine.distances) :
    (s.tended .forgetting bindings m).Numbered := by
  intro entry hentry
  refine h entry ?_
  rw [← hm]
  exact Distances.mem_entries_of_mem_forget hentry

theorem proceed_apply (limits : Limits) (numbered : Stmt Site) (bindings : List Binding) (run : Bool)
    (rest : TokenStream) (s : Session) :
    proceed limits numbered bindings run rest s =
      match (if run then s.settle .forgetting numbered bindings
          (Run.interpret limits.rounds limits.execution numbered s.machine)
        else .ok (passed numbered) (s.tended .forgetting bindings s.machine)) with
      | .ok status t => .ok (status, rest) t
      | .error interruption t => .error interruption t := by
  cases run with
  | false => cases numbered <;> rfl
  | true =>
    simp only [proceed, if_true, bind_apply, execute_apply, settle]
    cases Run.interpret limits.rounds limits.execution numbered s.machine with
    | error stop m => cases stop <;> rfl
    | ok value m =>
      by_cases hdone : m.done = true
      · simp [Session.tended, hdone]
      · simp [Session.tended, hdone, bind_apply, keep_apply]

/-- Whatever becomes of a statement that has been resolved, no distances are written. -/
theorem Numbered.proceed (h : s.Numbered) (limits : Limits) (numbered : Stmt Site)
    (bindings : List Binding) (run : Bool) (rest : TokenStream) :
    (final (proceed limits numbered bindings run rest s)).Numbered := by
  rw [proceed_apply]
  cases run with
  | false => exact h.tended rfl
  | true =>
    have hspares := Run.distances_interpret limits.rounds limits.execution numbered s.machine
    rw [if_pos rfl]
    cases hrun : Run.interpret limits.rounds limits.execution numbered s.machine with
    | ok value m =>
      rw [hrun] at hspares
      by_cases hdone : m.done = true
      · simp only [settle, if_pos hdone]
        exact h.tended hspares
      · simp only [settle, if_neg hdone]
        exact h.tended hspares
    | error stop m =>
      rw [hrun] at hspares
      cases stop <;> exact h.tended hspares

end Session

namespace Tandem
variable {limits : Limits} {stream rest : TokenStream} {run : Bool} {a : Tandem} {s t : Session}

theorem Settled.alone (h : a.Settled) {α : Type} {x : SessionM α}
    (hx : (final (x a.session)).Numbered) : (final (alone x a)).Settled := by
  unfold Tandem.alone
  cases hrun : x a.session with
  | ok value t | error interruption t =>
    rw [hrun] at hx
    exact ⟨h.atRest, hx⟩

/-- A step leaves a settled session, however it ends. -/
theorem Settled.step (h : a.Settled) (limits : Limits) (stream : TokenStream) (run : Bool) :
    (final (step limits stream run a)).Settled := by
  unfold Tandem.step
  cases stream.takeStatement limits.nesting with
  | mk item rest =>
    cases item with
    | error error => exact ⟨h.atRest, h.known⟩
    | ok statement =>
      obtain ⟨-, hsettled⟩ := h.resolve limits statement
      simp only [bind_apply]
      cases hresolve : Tandem.resolve limits statement a with
      | error interruption b =>
        rw [hresolve] at hsettled
        exact hsettled
      | ok resolution b =>
        rw [hresolve] at hsettled
        cases resolution with
        | error error => exact ⟨hsettled.atRest, hsettled.known⟩
        | ok resolved => exact hsettled.alone (hsettled.known.proceed _ _ _ _ _)

/-- Between two statements the resolver is at rest, whatever has happened before. -/
theorem Reachable.settled (h : Reachable a) : a.Settled := by
  induction h with
  | start h =>
    obtain ⟨hmachine, -⟩ := Session.start_eq_ok h
    refine ⟨Walk.atRest_start, fun entry hentry => ?_⟩
    simp only [hmachine] at hentry
    cases hentry
  | quoteFrom ha source ih => exact ih.alone ih.known
  | step ha limits stream run ih => exact ih.step limits stream run
  | @close a ha ih =>
    refine ⟨ih.atRest, ?_⟩
    cases hmode : a.session.mode with
    | script => rw [Session.closed_of_script hmode]; exact ih.known
    | interactive => rw [Session.closed_of_interactive hmode]; exact ih.known
  | @pop a ha ih =>
    refine ih.alone ?_
    simp only [Session.pop?, get_bind_apply]
    cases a.session.results <;> exact ih.known
  | takeOutput ha ih => exact ⟨ih.atRest, ih.known⟩
  | takeReports ha ih => exact ⟨ih.atRest, ih.known⟩

/-- Running sources, to their end or until they are interrupted, leads to sessions that can be
reached. -/
theorem persists_reachable (limits : Limits) :
    Session.Persists (fun s => ∃ walk, Reachable ⟨s, walk⟩) (fun _ => True) (fun _ => True) limits where
  quoted := fun ⟨walk, ha⟩ source => ⟨walk, ha.quoteFrom source⟩
  step := by
    rintro s stream ⟨walk, ha⟩ - run
    have hnext := ha.step limits stream run
    rw [← ha.settled.seen_step]
    generalize step limits stream run ⟨s, walk⟩ = r at hnext ⊢
    cases r with
    | ok ended b => exact ⟨b.walk, hnext⟩
    | error interruption b => exact ⟨trivial, b.walk, hnext⟩
  close := fun ⟨walk, ha⟩ => ⟨walk, ha.close⟩
  text := fun _ => trivial
  rest := fun _ => trivial

end Tandem

/-- Errors of the text: no token, no statement, or names that do not fit together. -/
def Diagnostic.OfText (d : Diagnostic) : Prop :=
  d.stage = .lexical ∨ d.stage = .syntactic ∨ d.stage = .resolution

theorem ParseError.ofText_diagnostic (e : ParseError) : e.diagnostic.OfText := by
  cases e with
  | lexical error => exact .inl rfl
  | syntactic error => exact .inr (.inl rfl)

theorem ResolutionError.ofText_diagnostic (e : ResolutionError) : e.diagnostic.OfText :=
  .inr (.inr rfl)

namespace Session
variable {limits : Limits} {run : Bool} {s t : Session}

/-- What has been resolved is no error of the text any more. -/
theorem settle_ne_grammarError {numbered : Stmt Site} {bindings : List Binding}
    (r : EStateM.Result Stop Machine Value) :
    s.settle .forgetting numbered bindings r ≠ .ok .grammarError t := by
  intro h
  cases r with
  | ok value m =>
    simp only [settle] at h
    split at h <;> cases h
  | error stop m => cases stop <;> cases h

/-- With an error of the text a session does nothing but report it. -/
theorem handle_grammarError {item : Item}
    (h : handle .forgetting limits item run s = .ok .grammarError t) :
    ∃ d : Diagnostic, d.OfText ∧ t = s.reported d := by
  cases item with
  | error e =>
    cases h
    exact ⟨_, e.ofText_diagnostic, rfl⟩
  | ok statement =>
    simp only [handle, perform] at h
    split at h
    · rename_i e _ _
      cases h
      exact ⟨_, e.ofText_diagnostic, rfl⟩
    · cases h
    · split at h
      · exact absurd h (settle_ne_grammarError _)
      · injection h with hpassed
        rcases passed_eq (statement.number s.nextSite).1 with ⟨-, heq⟩ | ⟨-, heq⟩ <;>
          rw [heq] at hpassed <;> cases hpassed

end Session

namespace Tandem
variable {limits : Limits} {stream rest : TokenStream} {run : Bool} {a : Tandem} {t : Session}

/-- An error of the text leaves the session as it was before the step but for one report: the machine
with its frames, distances and output, the values that have been kept, and everything else. The
resolver, which has gone through the statement and written distances until it met the error, is at
rest again. -/
theorem step_grammarError (ha : Reachable a)
    (h : Session.step limits stream run .byDistance a.session = .ok (.grammarError, rest) t) :
    (∃ d : Diagnostic, d.OfText ∧
        t = { a.session with
          reports := a.session.reports ++ [a.session.reporter.report d false] }) ∧
      ∃ walk, step limits stream run a = .ok (.grammarError, rest) ⟨t, walk⟩ ∧
        walk.scopes = [] ∧ walk.initializing = none ∧ walk.inFunction = false := by
  constructor
  · rw [Session.step_apply] at h
    cases hhandle : Session.handle .forgetting limits (stream.takeStatement limits.nesting).1 run
        a.session with
    | error interruption t' =>
      rw [hhandle] at h
      cases h
    | ok status t' =>
      rw [hhandle] at h
      cases h
      exact Session.handle_grammarError hhandle
  · have hsettled := ha.settled.step limits stream run
    rw [← ha.settled.seen_step] at h
    cases hstep : step limits stream run a with
    | error interruption b =>
      rw [hstep] at h
      cases h
    | ok ended b =>
      rw [hstep] at h hsettled
      cases h
      obtain ⟨hscopes, hinitializing, hfunction⟩ := hsettled.atRest
      exact ⟨b.walk, rfl, hscopes, hinitializing, hfunction⟩

/-- A block in which a reference is bound before a name is declared twice. -/
theorem step_grammarError_of_declaredTwice :
    ∃ a : Tandem, Reachable a ∧ ∃ rest t,
      Session.step .standard (.ofText "{ var a; a; var a; }") true .byDistance a.session =
        .ok (.grammarError, rest) t ∧
      (∃ d : Diagnostic, d.OfText ∧
        t = { a.session with
          reports := a.session.reports ++ [a.session.reporter.report d false] }) ∧
      ∃ walk, step .standard (.ofText "{ var a; a; var a; }") true a =
          .ok (.grammarError, rest) ⟨t, walk⟩ ∧
        walk.scopes = [] ∧ walk.initializing = none ∧ walk.inFunction = false := by
  have hstart : Session.start .interactive "<in>" (fun _ => 0) (.initial true) =
      .ok ⟨.interactive, "<in>", .initial fun _ => 0, 0, [],
        { (Reporter.initial true).withFile "<in>" "" with fatal := false }, []⟩ := rfl
  generalize hs : (⟨.interactive, "<in>", .initial fun _ => 0, 0, [],
    { (Reporter.initial true).withFile "<in>" "" with fatal := false }, []⟩ : Session) = s at hstart
  have hstatus : (match Session.step .standard (.ofText "{ var a; a; var a; }") true .byDistance s with
      | .ok ended _ => some ended.1
      | .error _ _ => none) = some Status.grammarError := by
    subst hs
    decide +kernel
  cases hstep : Session.step .standard (.ofText "{ var a; a; var a; }") true .byDistance s with
  | error interruption t =>
    rw [hstep] at hstatus
    cases hstatus
  | ok ended t =>
    rw [hstep] at hstatus
    obtain ⟨status, rest⟩ := ended
    obtain rfl : status = .grammarError := Option.some.inj hstatus
    have hreachable : Reachable ⟨s, .start⟩ := .start hstart
    exact ⟨⟨s, .start⟩, hreachable, rest, t, hstep, step_grammarError hreachable hstep⟩

end Tandem

end Lox
