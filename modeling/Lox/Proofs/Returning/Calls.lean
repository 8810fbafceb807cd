import Lox.Proofs.Returning.Log
import Lox.Proofs.Session.Restoring

/-!
# A return ends its own call

The first return that the activation of a call executes gives the call its value and is the last thing
that the activation does; without one the whole body is executed, and the value is nil. Whatever ends
with a return has executed one itself, since a call hands on nothing but its value. Outside of all
functions there is no call to end, so a return is an error there, behind all that has been done before.
-/
namespace Lox
open Outcome

/-- Statements that are executed one after the other, each of them to its own end. -/
inductive Through (run : Stmt Site → Run Completion) : List (Stmt Site) → Machine → Machine → Prop where
  | nil (m : Machine) : Through run [] m m
  | cons {s : Stmt Site} {ss : List (Stmt Site)} {m m' m'' : Machine} (h : run s m = .ok none m')
    (rest : Through run ss m' m'') : Through run (s :: ss) m m''

/-- A call is at the start of the body of its function: its frame has been made, the parameters have
been bound in it, and it is the current one. -/
def Closure.Starts (f : Closure) (arguments : List Value) (m start : Machine) : Prop :=
  ∃ frame entered bound, Run.enter f.frame f.site m = .ok frame entered ∧
    Run.bindParameters frame f.params arguments entered = .ok () bound ∧
      start = { bound with current := frame }

namespace Run
variable {run : Stmt Site → Run Completion} {m m' : Machine} {line : Int} {f : Closure}
  {arguments : List Value} {value : Value}

/-- Where statements have come to their end without a return, all of them have been executed. -/
theorem through_of_sequence {ss : List (Stmt Site)} (h : sequence run ss m = .ok none m') :
    Through run ss m m' := by
  induction ss generalizing m with
  | nil =>
    cases h
    exact .nil _
  | cons s ss ih =>
    obtain ⟨completion, t, hfirst, hrest⟩ := bind_eq_ok.mp h
    cases completion with
    | none => exact .cons hfirst (ih hrest)
    | some returned => cases hrest

theorem current_define {id : FrameId} {name : String} {line : Option Int}
    (h : define id name value line m = .ok () m') : m'.current = m.current := by
  simp only [define, get_bind_apply] at h
  split at h
  · cases h
  · cases h
    rfl

theorem current_bindParameters {frame : FrameId} {params : List Token}
    (h : bindParameters frame params arguments m = .ok () m') : m'.current = m.current := by
  induction params generalizing arguments m with
  | nil =>
    cases h
    rfl
  | cons param params ih =>
    cases arguments with
    | nil =>
      cases h
      rfl
    | cons argument arguments =>
      obtain ⟨_, t, hfirst, hrest⟩ := bind_eq_ok.mp h
      exact (ih hrest).trans (current_define hfirst)

/-- What a call of a function does that comes to its end. -/
theorem call_closure_eq_ok (h : call run line (.closure f) arguments m = .ok value m') :
    ∃ start completion left, f.Starts arguments m start ∧
      sequence run f.body start = .ok completion left ∧ m' = { left with current := m.current } ∧
        value = (completion.map (·.value)).getD .nil := by
  have harity : (Value.closure f).arity? = some f.params.length := rfl
  simp only [call, harity] at h
  split at h
  · obtain ⟨frame, entered, henter, h⟩ := bind_eq_ok.mp h
    obtain ⟨_, bound, hbind, h⟩ := bind_eq_ok.mp h
    obtain ⟨completion, t, hwithin, h⟩ := bind_eq_ok.mp h
    cases h
    have hcurrent : bound.current = m.current :=
      (current_bindParameters hbind).trans (by cases henter; rfl)
    simp only [within] at hwithin
    split at hwithin
    · rename_i completion left hbody
      cases hwithin
      exact ⟨_, completion, left, ⟨frame, entered, bound, henter, hbind, rfl⟩, hbody,
        by rw [hcurrent], rfl⟩
    · cases hwithin
  · cases h

theorem neverReturns_expression (rounds depth : Nat) (e : Expr Site) :
    NeverReturns (Access.byDistance.execute rounds depth (.expression e)) := by
  cases depth with
  | zero => exact .throw _
  | succ depth => exact .bind fun _ => .pure

/-- A completion fails as a return outside of all functions if and only if it is a return. -/
theorem concluded_eq_topLevelReturn {completion : Completion} {line : Option Int} :
    concluded completion m = .error (.error ⟨.topLevelReturn, line⟩) m' ↔
      ∃ returned, completion = some returned ∧ m = m' ∧ line = returned.line := by
  cases completion with
  | none =>
    constructor
    · intro heq
      cases heq
    · rintro ⟨_, heq, -⟩
      cases heq
  | some returned =>
    constructor
    · intro heq
      cases heq
      exact ⟨returned, rfl, rfl, rfl⟩
    · rintro ⟨_, heq, rfl, rfl⟩
      cases heq
      rfl

/-- A statement that stands by itself fails with a return outside of all functions if and only if its
execution has come to a return. -/
theorem interpret_eq_topLevelReturn (hm : m.Sound) {rounds depth : Nat} {s : Stmt Site}
    {line : Option Int} :
    interpret rounds depth s m = .error (.error ⟨.topLevelReturn, line⟩) m' ↔
      ∃ returned, Access.byDistance.execute rounds depth s m = .ok (some returned) m' ∧
        line = returned.line := by
  have hall := restoresUpTo rounds depth
  by_cases hs : ∀ e, s ≠ .expression e
  · have hleaves := hall.execute s m hm
    rw [interpret_eq_concluded hs, bind_apply]
    cases hrun : Access.byDistance.execute rounds depth s m with
    | error stop t =>
      rw [hrun] at hleaves
      constructor
      · intro heq
        cases heq
        exact absurd rfl (hleaves.2 line)
      · rintro ⟨_, heq, -⟩
        cases heq
    | ok completion t =>
      refine concluded_eq_topLevelReturn.trans (exists_congr fun returned => ?_)
      rw [EStateM.Result.ok.injEq, and_assoc]
  · push Not at hs
    obtain ⟨e, rfl⟩ := hs
    have hleaves := hall.evaluate e m hm
    constructor
    · intro heq
      rw [show Access.byDistance.evaluate rounds depth e m = _ from heq] at hleaves
      exact absurd rfl (hleaves.2 line)
    · rintro ⟨returned, heq, -⟩
      have hnone := neverReturns_expression rounds depth e m _ m' heq
      cases hnone

end Run

/-- A text goes on behind its first letter. -/
theorem head?_toList_append {c : Char} {text : String} (h : text.toList.head? = some c)
    (more : String) : (text ++ more).toList.head? = some c := by
  rw [String.toList_append, List.head?_append, h]
  rfl

/-- No other error has the wording of a return outside of all functions. -/
theorem RuntimeError.Cause.eq_topLevelReturn {cause : RuntimeError.Cause}
    (h : cause.message = "cannot return from top-level code") : cause = .topLevelReturn := by
  have hfirst : ∀ c, cause.message.toList.head? = some c → c = 'c' := by
    intro c hc
    rw [h] at hc
    have htext : "cannot return from top-level code".toList.head? = some 'c' := by decide +kernel
    exact Option.some.inj (hc.symm.trans htext)
  have hvariable : ∀ text more, text.toList.head? = some 'v' → cause.message ≠ text ++ more ++ "'" := by
    intro text more htext heq
    have hv := hfirst 'v' (heq ▸ head?_toList_append (head?_toList_append htext more) "'")
    exact absurd hv (by decide)
  cases cause with
  | topLevelReturn => rfl
  | alreadyDeclared name => exact absurd rfl (hvariable _ name (by decide +kernel))
  | notDefined name => exact absurd rfl (hvariable _ name (by decide +kernel))
  | notDeclared name => exact absurd rfl (hvariable _ name (by decide +kernel))
  | wrongArity expected given =>
    have hexpected : "expected ".toList.head? = some 'e' := by decide +kernel
    have he := hfirst 'e' (head?_toList_append (head?_toList_append
      (head?_toList_append hexpected _) _) _)
    exact absurd he (by decide)
  | _ => exact absurd h (by decide)

/-- An event of an activation that executes some statements. -/
def Event.InSome (ss : List (Stmt Site)) (e : Event) : Prop := ∃ s ∈ ss, e.In s

/-- How the activation of a call answers when its body has been executed from `start` on and has left
`left`, with these events and this value. -/
inductive Answers (rounds depth : Nat) (body : List (Stmt Site)) (start left : Machine) :
    List Event → Value → Prop where
  /-- It answers with the value of the first return that it executes, and does nothing behind it. -/
  | returned {front : List Event} {keyword : Token} {operand : Option (Expr Site)} {value : Value}
    {behind : Machine} (hfront : Silent (Event.InSome body) front)
    (hown : ∃ s ∈ body, (Stmt.return keyword operand).Part s) (hvalue : Handed rounds operand value behind)
    (hleft : { left with current := behind.current } = behind) :
    Answers rounds depth body start left (front ++ [.returns keyword operand value behind]) value
  /-- It has executed no return, has gone through its whole body and answers with nil. -/
  | through {events : List Event} (h : Silent (Event.InSome body) events)
    (hbody : Through (Access.byDistance.execute rounds depth) body start left) :
    Answers rounds depth body start left events .nil

section Endings
variable {m m' : Machine} {rounds depth : Nat}

/-- A return that is noted of an activation is the one that it ends with. -/
theorem Accounts.eq_of_mem_returns {own : Event → Prop} {events : List Event}
    {r : EStateM.Result Stop Machine Completion} (h : Accounts rounds own events r) {keyword : Token}
    {operand : Option (Expr Site)} {value : Value} {left : Machine}
    (hmem : .returns keyword operand value left ∈ events) :
    ∃ t, r = .ok (some ⟨value, keyword.line⟩) t ∧ { t with current := left.current } = left := by
  cases h with
  | through h => exact absurd trivial (h _ hmem).2
  | stopped h => exact absurd trivial (h _ hmem).2
  | returned h _ hleft _ =>
    rcases List.mem_append.mp hmem with hfront | hlast
    · exact absurd trivial (h _ hfront).2
    · cases List.mem_singleton.mp hlast
      exact ⟨_, rfl, hleft⟩

/-- The events that are noted of a statement from the start on. -/
theorem exists_accounts (rounds depth : Nat) (s : Stmt Site) (m : Machine) :
    ∃ events, Watch.execute rounds depth s ⟨m, []⟩ =
        stamp events (Access.byDistance.execute rounds depth s m) ∧
      Accounts rounds (Event.In s) events (Access.byDistance.execute rounds depth s m) :=
  Watch.watches_execute rounds depth s m []

/-- How the activation of a call that comes to its end has ended. -/
theorem exists_activation {line : Int} {f : Closure} {arguments : List Value} {value : Value}
    (h : Run.call (Access.byDistance.execute rounds depth) line (.closure f) arguments m =
      .ok value m') :
    ∃ start completion events left, f.Starts arguments m start ∧
      Run.sequence (Access.byDistance.execute rounds depth) f.body start = .ok completion left ∧
      Watch.sequence (Watch.execute rounds depth) f.body ⟨start, []⟩ = .ok completion ⟨left, events⟩ ∧
      m' = { left with current := m.current } ∧ Answers rounds depth f.body start left events value := by
  obtain ⟨start, completion, left, hstarts, hbody, hm', hvalue⟩ := Run.call_closure_eq_ok h
  have hwatches : Watches (Accounts rounds (Event.InSome f.body))
      (Run.sequence (Access.byDistance.execute rounds depth) f.body)
      (Watch.sequence (Watch.execute rounds depth) f.body) :=
    .sequence fun s hs => (Watch.watches_execute rounds depth s).mono fun _ he => ⟨s, hs, he⟩
  obtain ⟨events, heq, haccounts⟩ := hwatches start []
  rw [hbody] at heq haccounts
  refine ⟨start, completion, events, left, hstarts, hbody, heq, hm', ?_⟩
  subst hvalue
  cases haccounts with
  | through hsilent => exact .through hsilent (Run.through_of_sequence hbody)
  | returned hsilent hown hleft hhanded => exact .returned hsilent hown hhanded hleft

/-- Where a statement that stands by itself has come to a return, it has failed with it: all that it has
done before is left. -/
theorem interpret_of_mem_returns (hm : m.Sound) {s : Stmt Site} {keyword : Token}
    {operand : Option (Expr Site)} {value : Value} {left : Machine}
    (hmem : .returns keyword operand value left ∈
      (final (Watch.execute rounds depth s ⟨m, []⟩)).events) :
    Run.interpret rounds depth s m =
      .error (.error ⟨.topLevelReturn, keyword.line⟩) { left with current := m.current } := by
  obtain ⟨events, heq, haccounts⟩ := exists_accounts rounds depth s m
  have hevents : (final (Watch.execute rounds depth s ⟨m, []⟩)).events = events := by
    rw [heq]
    cases Access.byDistance.execute rounds depth s m <;> rfl
  rw [hevents] at hmem
  obtain ⟨t, hrun, hleft⟩ := haccounts.eq_of_mem_returns hmem
  have hleaves := (Run.restoresUpTo rounds depth).execute s m hm
  rw [hrun] at hleaves
  have ht : t = { left with current := m.current } := by
    rw [← hleft, ← hleaves.1.current]
  rw [← ht]
  exact (Run.interpret_eq_topLevelReturn hm).mpr ⟨_, hrun, rfl⟩

/-- A statement that stands by itself fails with the complaint about a return outside of all functions
if and only if a return of its own has been executed. -/
theorem interpret_fails_iff (hm : m.Sound) (s : Stmt Site) (line : Int) :
    (∃ error m', Run.interpret rounds depth s m = .error (.error error) m' ∧
        error.diagnostic = ⟨.runtime, "cannot return from top-level code", some line⟩) ↔
      ∃ keyword operand value left, .returns keyword operand value left ∈
        (final (Watch.execute rounds depth s ⟨m, []⟩)).events ∧ keyword.line = line := by
  constructor
  · rintro ⟨⟨cause, errorLine⟩, m', hrun, hdiagnostic⟩
    obtain ⟨-, hmessage, hline⟩ := Diagnostic.mk.inj hdiagnostic
    cases RuntimeError.Cause.eq_topLevelReturn hmessage
    obtain ⟨returned, hexecute, hreturned⟩ := (Run.interpret_eq_topLevelReturn hm).mp hrun
    obtain ⟨events, heq, haccounts⟩ := exists_accounts rounds depth s m
    rw [hexecute] at heq haccounts
    rw [heq]
    cases haccounts with
    | @returned front keyword operand value left _ _ _ _ _ =>
      refine ⟨keyword, operand, value, left, ?_, ?_⟩
      · exact List.mem_append_right _ (List.mem_singleton.mpr rfl)
      · exact Option.some.inj (hreturned.symm.trans hline)
  · rintro ⟨keyword, operand, value, left, hmem, rfl⟩
    exact ⟨_, _, interpret_of_mem_returns hm hmem, rfl⟩

end Endings

/-- A return ends the activation in which it is executed and nothing else. A statement ends with a
return exactly if one of its own returns has been executed, which is then the last thing that its
activation has done. A call that comes to its end has the value of the return that its activation has
executed, or nil if it has executed none and has gone through its whole body; the frame of the caller
is current again. And a whole statement fails with the complaint about a return outside of all
functions, on the line of that return, exactly if it has executed one, and the machine is left as the
return has left it. -/
theorem Machine.Reached.returns_end_activations {m : Machine} (h : m.Reached) (rounds depth : Nat) :
    (∀ s, ∃ events, Watch.execute rounds depth s ⟨m, []⟩ =
        stamp events (Access.byDistance.execute rounds depth s m) ∧
      Accounts rounds (Event.In s) events (Access.byDistance.execute rounds depth s m)) ∧
    (∀ line (f : Closure) arguments value m',
      Run.call (Access.byDistance.execute rounds depth) line (.closure f) arguments m = .ok value m' →
        ∃ start completion events left, f.Starts arguments m start ∧
          Run.sequence (Access.byDistance.execute rounds depth) f.body start = .ok completion left ∧
          Watch.sequence (Watch.execute rounds depth) f.body ⟨start, []⟩ =
            .ok completion ⟨left, events⟩ ∧
          m' = { left with current := m.current } ∧
          Answers rounds depth f.body start left events value) ∧
    ∀ s, (∀ line, (∃ error m', Run.interpret rounds depth s m = .error (.error error) m' ∧
          error.diagnostic = ⟨.runtime, "cannot return from top-level code", some line⟩) ↔
        ∃ keyword operand value left, .returns keyword operand value left ∈
          (final (Watch.execute rounds depth s ⟨m, []⟩)).events ∧ keyword.line = line) ∧
      ∀ keyword operand value left, .returns keyword operand value left ∈
          (final (Watch.execute rounds depth s ⟨m, []⟩)).events →
        Run.interpret rounds depth s m =
          .error (.error ⟨.topLevelReturn, keyword.line⟩) { left with current := m.current } :=
  ⟨fun s => exists_accounts rounds depth s m, fun _ _ _ _ _ => exists_activation, fun s =>
    ⟨interpret_fails_iff h.sound s, fun _ _ _ _ => interpret_of_mem_returns h.sound⟩⟩

/-- A function with a return in a loop and a statement behind it. -/
theorem Machine.Reached.returns_end_activations_of_loop :
    ∃ (m m' : Machine) (f : Closure), m.Reached ∧
      Run.call (Access.byDistance.execute 1 4) 1 (.closure f) [] m = .ok (.bool true) m' ∧
      f.body = [.loop (.literal (.bool true))
          (.return ⟨.kwReturn, "return", none, 1⟩ (some (.literal (.bool true)))),
        .print (.literal .nil)] ∧
      ∃ start completion left front keyword operand behind,
        Watch.sequence (Watch.execute 1 4) f.body ⟨start, []⟩ =
            .ok completion ⟨left, front ++ [.returns keyword operand (.bool true) behind]⟩ ∧
          Silent (Event.InSome f.body) front := by
  have hm := Machine.Reached.initial fun _ => 0
  let f : Closure := ⟨0, ⟨.identifier, "f", none, 1⟩, [],
    [.loop (.literal (.bool true))
        (.return ⟨.kwReturn, "return", none, 1⟩ (some (.literal (.bool true)))),
      .print (.literal .nil)], Machine.globals⟩
  obtain ⟨m', hcall⟩ : ∃ m', Run.call (Access.byDistance.execute 1 4) 1 (.closure f) []
    (.initial fun _ => 0) = .ok (.bool true) m' := ⟨_, rfl⟩
  refine ⟨_, m', f, hm, hcall, rfl, ?_⟩
  obtain ⟨start, completion, events, left, -, -, heq, -, hanswers⟩ :=
    (hm.returns_end_activations 1 4).2.1 1 f [] (.bool true) m' hcall
  cases hanswers with
  | returned hfront _ _ _ => exact ⟨start, completion, left, _, _, _, _, heq, hfront⟩

end Lox
