import Lox.Proofs.Scoping.Renumbering
import Lox.Proofs.Session.Rollback
import Lox.Proofs.Session.Scripts

/-!
# Looking at a text without executing it

A session may step through a text and execute nothing. It then changes its table and its reports
only, and reports the errors of the text. These are the same errors, in the same order, that an
interactive session reports which executes the text, whatever its statements do in between.
-/
namespace Lox
open Outcome

instance : DecidablePred Diagnostic.OfText := fun d =>
  inferInstanceAs (Decidable (d.stage = .lexical ∨ d.stage = .syntactic ∨ d.stage = .resolution))

section Problems
variable {limits : Limits} {statement : Stmt Unit} {items : List Item} {next : Site}
  {bindings : List Binding}

end Problems

namespace Session
variable {past : List (Stmt Site)} {limits : Limits} {s t u : Session}

/-- A session that has only looked at statements: its frames, its output, its values, its setting and
whether it is done are as they were. -/
structure Idle (s t : Session) : Prop where
  machine : t.machine = { s.machine with distances := t.machine.distances }
  results : t.results = s.results
  setting : SameSetting s t

namespace Idle

theorem refl (s : Session) : Idle s s :=
  ⟨rfl, rfl, .refl s⟩

theorem trans (h : Idle s t) (h' : Idle t u) : Idle s u where
  machine := by rw [h'.machine, h.machine]
  results := h'.results.trans h.results
  setting := h.setting.trans h'.setting

theorem reported (s : Session) (d : Diagnostic) : Idle s (s.reported d) :=
  ⟨rfl, rfl, .refl s⟩

theorem recorded (s : Session) (bindings : List Binding) (after : Site) :
    Idle s (s.recorded bindings after) :=
  ⟨rfl, rfl, .refl s⟩

theorem passed (s : Session) (bindings : List Binding) (after : Site) :
    Idle s ((s.recorded bindings after).tended .forgetting bindings
      (s.recorded bindings after).machine) :=
  ⟨rfl, rfl, .refl s⟩

/-- Whatever the stream hands out, a step that executes nothing leaves the session idle. -/
theorem step (limits : Limits) (stream : TokenStream) (s : Session) :
    Idle s (final (step limits stream false .byDistance s)) := by
  rw [final_step]
  cases (stream.takeStatement limits.nesting).1 with
  | error e => exact reported s _
  | ok statement =>
    simp only [handle, perform]
    cases (statement.number s.nextSite).1.resolve limits.scoping with
    | mk resolution bindings =>
      cases resolution with
      | ok _ => exact passed s bindings _
      | error failure =>
        cases failure with
        | error e => exact reported s _
        | fault f => exact recorded s bindings _

end Idle

theorem Reports.nil (s : Session) : Reports s s [] :=
  ⟨rfl, (List.append_nil _).symm⟩

end Session

end Lox
