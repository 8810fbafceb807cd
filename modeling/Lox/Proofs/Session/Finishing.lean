import Lox.Proofs.Grammar.Bodies
import Lox.Proofs.Session.Histories

/-!
# When a session is done

The machine remembers that it has executed the end of the input, and a step that executes a statement
looks there. A step is therefore done not only at the end of the input: it is done with any
statement that it executes to its end if the end of an earlier input has been executed before, and
with a statement in which the end of the input stands in the place of a body and is executed. A
source that a session begins with a clear machine is nevertheless gone through completely.
-/
namespace Lox
open Outcome

namespace Session
variable {past : List (Stmt Site)} {limits : Limits} {stream rest : TokenStream} {run : Bool}
  {s t : Session}

/-- The session as if the end of the input had not been executed. -/
def cleared (s : Session) : Session :=
  { s with machine := { s.machine with done := false } }

@[simp] theorem nextSite_cleared (s : Session) : s.cleared.nextSite = s.nextSite := rfl

theorem Regular.of_cleared (h : Regular past s) : Regular past s.cleared := by
  obtain ⟨T, hT⟩ := h.steady.typed
  exact ⟨h.steady.of_typed (hT.congr rfl rfl) h.steady.current, h.within⟩

section Clearing
variable {numbered : Stmt Site} {after : Site} {bindings : List Binding}

/-- A run does not notice whether the end of the input has been executed before. -/
theorem Regular.interpret_eq_ok_iff (h : Regular past s)
    (hplaced : numbered.Placed (.behind past s.machine.distances) .outermost)
    (hwithin : numbered.Within .regular True none) {rounds depth : Nat} {value : Value}
    {m : Machine} :
    Run.interpret rounds depth numbered s.machine = .ok value m ↔
      ∃ m', Run.interpret rounds depth numbered s.cleared.machine = .ok value m' ∧
        m = { m' with done := s.machine.done || m'.done } := by
  obtain ⟨T, hT⟩ := h.of_cleared.steady.typed
  let Φ : Translation := { (Respelling.none : Respelling Site) with
    distances := id, done := fun done => s.machine.done || done }
  have hfaithful : Φ.Faithful (.behind past s.machine.distances) .regular :=
    ⟨fun _ => rfl, fun _ => rfl, fun _ _ heq => heq, fun _ => rfl⟩
  have hending : True → Φ.done true = true := fun _ => Bool.or_true _
  have hcarries := hfaithful.carries_interpret hending hT.globals hplaced hwithin rounds depth
    s.cleared.machine ⟨hT, h.within, h.steady.current⟩
  have hmachine : ∀ m : Machine, Φ.machine m = { m with done := s.machine.done || m.done } := by
    intro m
    have hstore : m.store.respell Φ.toRespelling = m.store := m.store.respell_none
    rw [Translation.machine, hstore]
    rfl
  have hback : Φ.machine s.cleared.machine = s.machine := by
    rw [hmachine]
    simp [cleared]
  have hnumbered : numbered.respell Φ.toRespelling Surroundings.outermost.site = numbered :=
    numbered.respell_none _
  rw [hback, hnumbered] at hcarries
  cases hrun : Run.interpret rounds depth numbered s.cleared.machine with
  | ok value' m' =>
    rw [hrun] at hcarries
    obtain ⟨-, heq⟩ := hcarries
    rw [heq, hmachine, show value'.respell Φ.toRespelling = value' from value'.respell_none]
    constructor
    · intro hok
      cases hok
      exact ⟨m', rfl, rfl⟩
    · rintro ⟨m'', hok, rfl⟩
      cases hok
      rfl
  | error stop m' =>
    rw [hrun] at hcarries
    obtain ⟨-, stop', -, heq⟩ := hcarries
    rw [heq]
    constructor
    · intro hok
      cases hok
    · rintro ⟨m'', hok, -⟩
      cases hok

theorem Next.interpret_eq_ok_iff (h : Next past s numbered after) {depth : Nat}
    (hresolve : numbered.resolve depth = (.ok (), bindings)) {rounds execution : Nat} {value : Value}
    {m : Machine} :
    Run.interpret rounds execution numbered (s.recorded bindings after).machine = .ok value m ↔
      ∃ m', Run.interpret rounds execution numbered (s.cleared.recorded bindings after).machine =
          .ok value m' ∧
        m = { m' with done := s.machine.done || m'.done } :=
  (h.regular.recorded (h.taken hresolve)).interpret_eq_ok_iff
    (h.regular.steady.placed (h.taken hresolve)) h.within

end Clearing

/-- The statement is resolved and executed to its end; `ended` says whether this has executed the end
of the input. -/
def Completes (limits : Limits) (s : Session) (statement : Stmt Unit) (ended : Bool) : Prop :=
  ∃ bindings value m,
    (statement.number s.nextSite).1.resolve limits.scoping = (.ok (), bindings) ∧
    Run.interpret limits.rounds limits.execution (statement.number s.nextSite).1
      (s.cleared.recorded bindings (statement.number s.nextSite).2).machine = .ok value m ∧
    m.done = ended

/-- What a step is done with, and what is left of the stream then. -/
inductive Finishes (limits : Limits) (s : Session) (run : Bool) : Item → TokenStream → Prop where
  /-- The end of the input. -/
  | marker {rest : TokenStream} : Finishes limits s run (.ok .endMarker) rest
  /-- A statement, after the end of another input. -/
  | stale {statement : Stmt Unit} {rest : TokenStream} {ended : Bool}
    (hne : statement ≠ .endMarker) (hrun : run = true) (hdone : s.machine.done = true)
    (h : Completes limits s statement ended) : Finishes limits s run (.ok statement) rest
  /-- A statement in which the end of the input is executed in the place of a body. -/
  | body {statement : Stmt Unit} {rest : TokenStream} (hne : statement ≠ .endMarker)
    (hrun : run = true) (hbody : statement.lacksBody = true) (hrest : rest.pending = [])
    (h : Completes limits s statement true) : Finishes limits s run (.ok statement) rest

/-- Only a statement without a body, at the end of a text, can execute the end of the input. -/
theorem Completes.lacksBody {statement : Stmt Unit} (h : Completes limits s statement true)
    (hregular : Regular past s) (hstream : stream.Genuine)
    (htake : stream.takeStatement limits.nesting = (.ok statement, rest))
    (hne : statement ≠ .endMarker) (hnesting : 0 < limits.nesting) :
    statement.lacksBody = true ∧ rest.pending = [] := by
  obtain ⟨bindings, value, m, hresolve, hrun, hended⟩ := h
  have hitem := hstream.regular_takeStatement limits.nesting
  rw [htake] at hitem
  have hnext := Next.of_item hregular.of_cleared hitem
  -- Otherwise there would be no end of the input in it, and the machine would still be clear.
  have hwithin : ¬statement.Within .regular False none := by
    intro hwithin
    have hsame := hnext.done_interpret (hwithin.number_regular _) hresolve limits.rounds
      limits.execution
    rw [nextSite_cleared, hrun] at hsame
    exact absurd (hended.symm.trans hsame) (by simp [cleared])
  have hpending : stream.pending ≠ [] := by
    intro hpending
    obtain ⟨depth, hdepth⟩ := Nat.exists_eq_add_of_lt hnesting
    rw [hdepth, TokenStream.takeStatement_of_pending_eq_nil hpending] at htake
    exact hne (Except.ok.inj (Prod.mk.inj htake).1).symm
  constructor
  · by_contra hbody
    exact hwithin (Grammar.takeStatement_within_of_bodies hstream hpending htake
      (Bool.eq_false_iff.mpr hbody))
  · by_contra hrest
    exact hwithin (hstream.takeStatement_within htake hrest)

/-- What a session handles with the status `done` finishes the steps. -/
theorem finishes_of_handle (hregular : Regular past s) (hstream : stream.Genuine)
    (hnesting : 0 < limits.nesting) {item : Item}
    (htake : stream.takeStatement limits.nesting = (item, rest))
    (h : handle .forgetting limits item run s = .ok .done t) : Finishes limits s run item rest := by
  have hitem := hstream.regular_takeStatement limits.nesting
  rw [htake] at hitem
  cases item with
  | error e => cases h
  | ok statement =>
    by_cases hne : statement = .endMarker
    · rw [hne]
      exact .marker
    have hnext := Next.of_item hregular hitem
    have hperformed := hnext.performed limits run
    rw [show perform .forgetting limits _ _ run s = _ from h] at hperformed
    generalize hresult : (EStateM.Result.ok Status.done t :
      EStateM.Result Interruption Session Status) = result at hperformed
    cases hperformed with
    | unresolved | ok | runtimeError | unfinished => cases hresult
    | passed =>
      injection hresult with hpassed
      rw [passed_number] at hpassed
      rcases passed_eq statement with ⟨rfl, -⟩ | ⟨-, hok⟩
      · exact absurd rfl hne
      · rw [hok] at hpassed
        cases hpassed
    | @done bindings value m hresolve hrun hdone =>
      obtain ⟨m', hrun', rfl⟩ := (hnext.interpret_eq_ok_iff hresolve).mp hrun
      have hcompletes : Completes limits s statement m'.done :=
        ⟨bindings, value, m', hresolve, hrun', rfl⟩
      -- Either the flag has been set before, or this statement has executed the end of the input.
      rcases Bool.or_eq_true_iff.mp hdone with hbefore | hended
      · exact .stale hne rfl hbefore hcompletes
      · rw [hended] at hcompletes
        obtain ⟨hbody, hrest⟩ := hcompletes.lacksBody hregular hstream htake hne hnesting
        exact .body hne rfl hbody hrest hcompletes

/-- A statement that is executed to its end is handled with the status `done` if the end of the input
has been executed, by it or before it. -/
theorem Completes.handle {statement : Stmt Unit} {ended : Bool} (h : Completes limits s statement ended)
    (hregular : Regular past s) (hitem : Item.Regular (.ok statement))
    (hdone : (s.machine.done || ended) = true) :
    ∃ t, handle .forgetting limits (.ok statement) true s = .ok .done t := by
  obtain ⟨bindings, value, m, hresolve, hrun, rfl⟩ := h
  have hnext := Next.of_item hregular hitem
  have hrun' := (hnext.interpret_eq_ok_iff hresolve).mpr ⟨m, hrun, rfl⟩
  refine ⟨(s.recorded bindings (statement.number s.nextSite).2).tended .forgetting bindings
    { m with done := s.machine.done || m.done }, ?_⟩
  simp only [Session.handle, perform, hresolve, hrun', settle, hdone, if_true]

/-- What a session handles with the status `done`. -/
theorem handle_done_iff (hregular : Regular past s) (hstream : stream.Genuine)
    (hnesting : 0 < limits.nesting) (hscoping : 0 < limits.scoping)
    (hexecution : 0 < limits.execution) {item : Item}
    (htake : stream.takeStatement limits.nesting = (item, rest)) :
    (∃ t, handle .forgetting limits item run s = .ok .done t) ↔ Finishes limits s run item rest := by
  have hitem := hstream.regular_takeStatement limits.nesting
  rw [htake] at hitem
  refine ⟨fun ⟨t, h⟩ => finishes_of_handle hregular hstream hnesting htake h, fun h => ?_⟩
  cases h with
  | marker =>
    cases run with
    | false => exact ⟨s, handle_endMarker_false hscoping s⟩
    | true => exact ⟨_, handle_endMarker_true hscoping hexecution s⟩
  | stale hne hrun hdone h =>
    rw [hrun]
    exact h.handle hregular hitem (by simp [hdone])
  | body hne hrun hbody hrest h =>
    rw [hrun]
    exact h.handle hregular hitem (Bool.or_true _)

/-- Steps to the end of the stream, at most `fuel` of them: the last status that is neither `ok` nor
`done`, and what is left of the stream. -/
def stepsTo (limits : Limits) : Nat → TokenStream → Status → SessionM (Status × TokenStream)
  | 0, stream, status => return (status, stream)
  | fuel + 1, stream, status => do
    let mode := (← get).mode
    let (result, rest) ← step limits stream (mode = .interactive || status = .ok)
    match result with
    | .done => return (status, rest)
    | .ok => stepsTo limits fuel rest status
    | .grammarError => stepsTo limits fuel rest .grammarError
    | .runtimeError =>
      if mode = .script then return (.runtimeError, rest)
      else stepsTo limits fuel rest .runtimeError

/-- Runs a source, and gives what is left of it as well. -/
def runTo (limits : Limits) (source : String) : SessionM (Status × TokenStream) := do
  quoteFrom source
  let ended ← stepsTo limits ((TokenStream.ofText source).remaining + 1) (.ofText source) .ok
  modify closed
  return ended

theorem map_stepsTo (fuel : Nat) (stream : TokenStream) (status : Status) :
    Prod.fst <$> stepsTo limits fuel stream status =
      steps .byDistance limits fuel stream status := by
  induction fuel generalizing stream status with
  | zero => rfl
  | succ fuel ih =>
    funext s
    simp only [steps, stepsTo, map_apply, bind_apply, get_apply]
    cases step limits stream (decide (s.mode = .interactive) || decide (status = .ok)) .byDistance s with
    | error interruption t => rfl
    | ok ended t =>
      obtain ⟨result, rest⟩ := ended
      cases result with
      | done => rfl
      | ok => exact congrFun (ih rest status) t
      | grammarError => exact congrFun (ih rest .grammarError) t
      | runtimeError =>
        by_cases hscript : s.mode = .script
        · simp only [hscript, if_true]
          rfl
        · simp only [hscript, if_false]
          exact congrFun (ih rest .runtimeError) t

/-- This is how a session runs a source. -/
theorem map_runTo (source : String) :
    Prod.fst <$> runTo limits source = runSource limits source := by
  funext s
  simp only [runTo, runSource, runStream, quoteFrom, modify_bind_apply, map_apply]
  rw [bind_apply, bind_apply, ← map_stepsTo, map_apply]
  cases stepsTo limits ((TokenStream.ofText source).remaining + 1) (.ofText source) .ok
    { s with reporter := s.reporter.withFile s.path source } <;> rfl

/-- A step of a run. -/
theorem stepsTo_cons {fuel : Nat} {status : Status}
    (hrun : run = (decide (s.mode = .interactive) || decide (status = .ok))) :
    stepsTo limits (fuel + 1) stream status s =
      match step limits stream run .byDistance s with
      | .error interruption t => .error interruption t
      | .ok (.done, rest) t => .ok (status, rest) t
      | .ok (.ok, rest) t => stepsTo limits fuel rest status t
      | .ok (.grammarError, rest) t => stepsTo limits fuel rest .grammarError t
      | .ok (.runtimeError, rest) t =>
        if s.mode = .script then .ok (.runtimeError, rest) t
        else stepsTo limits fuel rest .runtimeError t := by
  subst hrun
  simp only [stepsTo, bind_apply, get_apply]
  cases step limits stream (decide (s.mode = .interactive) || decide (status = .ok)) .byDistance s with
  | error interruption t => rfl
  | ok ended t =>
    obtain ⟨result, rest⟩ := ended
    cases result with
    | runtimeError => simp only; split <;> rfl
    | _ => rfl

/-- A step is done with the end of the input, and otherwise only for one of two reasons. -/
theorem step_done_iff (hregular : Regular past s) (hstream : stream.Genuine)
    (hnesting : 0 < limits.nesting) (hscoping : 0 < limits.scoping)
    (hexecution : 0 < limits.execution) :
    (∃ rest t, step limits stream run .byDistance s = .ok (.done, rest) t) ↔
      Finishes limits s run (stream.takeStatement limits.nesting).1
        (stream.takeStatement limits.nesting).2 := by
  cases htake : stream.takeStatement limits.nesting with
  | mk item rest =>
    rw [← handle_done_iff hregular hstream hnesting hscoping hexecution htake]
    simp only [step_apply, htake]
    constructor
    · rintro ⟨rest', t, hstep⟩
      cases hhandle : handle .forgetting limits item run s with
      | error interruption t' =>
        rw [hhandle] at hstep
        cases hstep
      | ok status t' =>
        rw [hhandle] at hstep
        cases hstep
        exact ⟨t, rfl⟩
    · rintro ⟨t, hhandle⟩
      exact ⟨rest, t, by rw [hhandle]⟩

/-- As long as something is left of a text, a step with another status leaves the machine clear. -/
theorem done_of_step (hregular : Regular past s) (hstream : stream.Genuine) {status : Status}
    (hstep : step limits stream run .byDistance s = .ok (status, rest) t) (hne : status ≠ .done)
    (hrest : rest.pending ≠ []) : t.machine.done = s.machine.done := by
  have hitem := hstream.regular_takeStatement limits.nesting
  rw [step_apply] at hstep
  cases htake : stream.takeStatement limits.nesting with
  | mk item rest' =>
    rw [htake] at hstep hitem
    simp only at hstep hitem
    cases hhandle : handle .forgetting limits item run s with
    | error interruption t' =>
      rw [hhandle] at hstep
      cases hstep
    | ok result t' =>
      rw [hhandle] at hstep
      cases hstep
      cases item with
      | error e =>
        cases hhandle
        rfl
      | ok statement =>
        have hnext := Next.of_item hregular hitem
        have hwithin := hstream.takeStatement_within htake hrest
        have hperformed := hnext.performed limits run
        rw [show perform .forgetting limits _ _ run s = _ from hhandle] at hperformed
        generalize hresult : (EStateM.Result.ok status t :
          EStateM.Result Interruption Session Status) = result at hperformed
        have hsame {bindings : List Binding} {r : EStateM.Result Stop Machine Value}
            (hresolve : (statement.number s.nextSite).1.resolve limits.scoping = (.ok (), bindings))
            (hrun : Run.interpret limits.rounds limits.execution (statement.number s.nextSite).1
              (s.recorded bindings (statement.number s.nextSite).2).machine = r) :
            (final r).done = s.machine.done :=
          hrun ▸ hnext.done_interpret (hwithin.number_regular _) hresolve limits.rounds
            limits.execution
        cases hperformed with
        | unresolved | passed =>
          cases hresult
          rfl
        | done =>
          cases hresult
          exact absurd rfl hne
        | ok hresolve hrun | runtimeError hresolve hrun =>
          cases hresult
          exact hsame hresolve hrun
        | unfinished => cases hresult

/-- The steps from `s` on through a stream come to a statement that is executed to its end although the
end of another input has been executed before, and `rest` is left behind it. -/
inductive Stopped (limits : Limits) : TokenStream → Session → TokenStream → Prop where
  | here {s : Session} {stream rest : TokenStream} {statement : Stmt Unit} {ended : Bool}
    (hdone : s.machine.done = true)
    (htake : stream.takeStatement limits.nesting = (.ok statement, rest))
    (hne : statement ≠ .endMarker) (h : Completes limits s statement ended) :
    Stopped limits stream s rest
  | behind {s t : Session} {stream between rest : TokenStream} {run : Bool} {status : Status}
    (hstep : step limits stream run .byDistance s = .ok (status, between) t) (hne : status ≠ .done)
    (h : Stopped limits between t rest) : Stopped limits stream s rest

/-- Behind a text there is only its end. -/
theorem stepsTo_of_pending_eq_nil (hnesting : 0 < limits.nesting) (hscoping : 0 < limits.scoping)
    (hexecution : 0 < limits.execution) (hpending : stream.pending = []) (fuel : Nat)
    (status : Status) (s : Session) :
    ∃ t, stepsTo limits (fuel + 1) stream status s = .ok (status, stream) t := by
  obtain ⟨depth, hdepth⟩ := Nat.exists_eq_add_of_lt hnesting
  have htake : stream.takeStatement limits.nesting = (.ok .endMarker, stream) := by
    rw [hdepth]
    exact TokenStream.takeStatement_of_pending_eq_nil hpending _
  rw [stepsTo_cons rfl, step_apply, htake]
  generalize (decide (s.mode = .interactive) || decide (status = .ok)) = run
  cases run with
  | true =>
    rw [handle_endMarker_true hscoping hexecution]
    exact ⟨_, rfl⟩
  | false =>
    rw [handle_endMarker_false hscoping]
    exact ⟨_, rfl⟩

/-- Steps go on to the end of a text or to a runtime error of a script, unless the machine was not
clear when they began. -/
theorem stepsTo_ends (hnesting : 0 < limits.nesting) (hscoping : 0 < limits.scoping)
    (hexecution : 0 < limits.execution) {fuel : Nat} (hs : History s) (hstream : stream.Genuine)
    (hfuel : stream.remaining < fuel) {status ended : Status}
    (h : stepsTo limits fuel stream status s = .ok (ended, rest) t) :
    rest.pending = [] ∨ (s.mode = .script ∧ ended = .runtimeError) ∨
      (s.machine.done = true ∧ Stopped limits stream s rest) := by
  induction fuel generalizing s stream status with
  | zero => omega
  | succ fuel ih =>
    by_cases hpending : stream.pending = []
    · obtain ⟨t', hstop⟩ :=
        stepsTo_of_pending_eq_nil hnesting hscoping hexecution hpending fuel status s
      rw [hstop] at h
      cases h
      exact .inl hpending
    rw [stepsTo_cons rfl] at h
    generalize (decide (s.mode = .interactive) || decide (status = .ok)) = run at h
    cases hstep : step limits stream run .byDistance s with
    | error interruption t' =>
      rw [hstep] at h
      cases h
    | ok result t' =>
      obtain ⟨result, rest'⟩ := result
      rw [hstep] at h
      obtain ⟨past, hregular⟩ := hs.regular
      have hrest' : rest' = (stream.takeStatement limits.nesting).2 := snd_of_step hstep
      have hless := hstream.remaining_takeStatement_lt hpending limits.nesting
      have hgenuine := hstream.takeStatement limits.nesting
      have hnext : History t' := by
        have hfinal := hs.step limits hstream run
        rwa [hstep] at hfinal
      have hmode : t'.mode = s.mode := (sameSetting_of_step hstep).1
      rw [← hrest'] at hless hgenuine
      -- Whatever else the step has come to, the rest of the steps begin behind it.
      have hbehind : ∀ {status'}, result ≠ .done →
          stepsTo limits fuel rest' status' t' = .ok (ended, rest) t →
          rest.pending = [] ∨ (s.mode = .script ∧ ended = .runtimeError) ∨
            (s.machine.done = true ∧ Stopped limits stream s rest) := by
        intro status' hne h
        by_cases hlast : rest'.pending = []
        · obtain ⟨less, rfl⟩ : ∃ less, fuel = less + 1 := ⟨fuel - 1, by omega⟩
          obtain ⟨t'', hstop⟩ :=
            stepsTo_of_pending_eq_nil hnesting hscoping hexecution hlast less status' t'
          rw [hstop] at h
          cases h
          exact .inl hlast
        · have hsame := done_of_step hregular hstream hstep hne hlast
          have hends := ih hnext hgenuine (by omega) h
          rw [hmode, hsame] at hends
          exact hends.imp_right (.imp_right (.imp_right (.behind hstep hne)))
      cases result with
      | done =>
        cases h
        have hfinishes := (step_done_iff hregular hstream hnesting hscoping hexecution).mp
          ⟨rest, t, hstep⟩
        cases htake : stream.takeStatement limits.nesting with
        | mk item rest'' =>
          rw [htake] at hfinishes hrest'
          obtain rfl : rest = rest'' := hrest'
          cases hfinishes with
          | marker => exact absurd (hstream.pending_eq_nil_of_endMarker htake) hpending
          | stale hne hrun hdone hcompletes =>
            exact .inr (.inr ⟨hdone, .here hdone htake hne hcompletes⟩)
          | body hne hrun hbody hrest hcompletes => exact .inl hrest
      | ok => exact hbehind nofun h
      | grammarError => exact hbehind nofun h
      | runtimeError =>
        by_cases hscript : s.mode = .script
        · simp only [hscript, if_true] at h
          cases h
          exact .inr (.inl ⟨hscript, rfl⟩)
        · simp only [hscript, if_false] at h
          exact hbehind nofun h

/-- A step is done exactly with the end of the input, with a statement that it executes to its end
after the end of another input has been executed, and with a statement in which it executes the end
of the input in the place of a body, behind which nothing is left of the text. Every source is gone
through up to its end or up to a runtime error of a script, unless the end of another input had been
executed before; then the first statement that is executed to its end stops the session. -/
theorem done_means_end (hs : History s) (hnesting : 0 < limits.nesting)
    (hscoping : 0 < limits.scoping) (hexecution : 0 < limits.execution) :
    (∀ {stream : TokenStream}, stream.Genuine → ∀ run,
      (∃ rest t, step limits stream run .byDistance s = .ok (.done, rest) t) ↔
        Finishes limits s run (stream.takeStatement limits.nesting).1
          (stream.takeStatement limits.nesting).2) ∧
    ∀ {source : String} {status : Status} {t : Session},
      runSource limits source .byDistance s = .ok status t →
      ∃ rest, runTo limits source s = .ok (status, rest) t ∧
        (rest.pending = [] ∨ (s.mode = .script ∧ status = .runtimeError) ∨
          (s.machine.done = true ∧ Stopped limits (.ofText source)
            { s with reporter := s.reporter.withFile s.path source } rest)) := by
  obtain ⟨past, hregular⟩ := hs.regular
  refine ⟨fun hstream run => step_done_iff hregular hstream hnesting hscoping hexecution, ?_⟩
  intro source status t hrun
  rw [← map_runTo, map_eq_ok] at hrun
  obtain ⟨⟨ended, rest⟩, hto, rfl⟩ := hrun
  refine ⟨rest, hto, ?_⟩
  simp only [runTo, quoteFrom, modify_bind_apply] at hto
  obtain ⟨result, t', hsteps, hclose⟩ := bind_eq_ok.mp hto
  cases hclose
  exact stepsTo_ends hnesting hscoping hexecution (hs.quoted source)
    (TokenStream.genuine_ofText source) (Nat.lt_succ_self _) hsteps

/-- A new interactive session that has taken the end of an empty input. -/
def spent : Session :=
  final (step .standard (.ofText "") true .byDistance
    ⟨.interactive, "<in>", .initial fun _ => 0, 0, [],
      { (Reporter.initial true).withFile "<in>" "" with fatal := false }, []⟩)

theorem history_spent : History spent := by
  have hstart : start .interactive "<in>" (fun _ => 0) (.initial true) =
      .ok ⟨.interactive, "<in>", .initial fun _ => 0, 0, [],
        { (Reporter.initial true).withFile "<in>" "" with fatal := false }, []⟩ := rfl
  exact (History.start hstart).step .standard (TokenStream.genuine_ofText "") true

theorem done_means_end_of_spent :
    (∀ {stream : TokenStream}, stream.Genuine → ∀ run,
      (∃ rest t, step .standard stream run .byDistance spent = .ok (.done, rest) t) ↔
        Finishes .standard spent run (stream.takeStatement Limits.standard.nesting).1
          (stream.takeStatement Limits.standard.nesting).2) ∧
    ∀ {source : String} {status : Status} {t : Session},
      runSource .standard source .byDistance spent = .ok status t →
      ∃ rest, runTo .standard source spent = .ok (status, rest) t ∧
        (rest.pending = [] ∨ (spent.mode = .script ∧ status = .runtimeError) ∨
          (spent.machine.done = true ∧ Stopped .standard (.ofText source)
            { spent with reporter := spent.reporter.withFile spent.path source } rest)) :=
  done_means_end history_spent (by decide) (by decide) (by decide)

/-- In such a session the first of two statements is done, and the second one is not executed. -/
theorem print_done :
    History spent ∧
    (∃ rest t, step .standard (.ofText "print \"a\"; print \"b\";") true .byDistance spent =
      .ok (.done, rest) t ∧ rest.pending ≠ []) ∧
    ((TokenStream.ofText "print \"a\"; print \"b\";").takeStatement Limits.standard.nesting).1 ≠
      .ok .endMarker ∧
    ∃ t, runSource .standard "print \"a\"; print \"b\";" .byDistance spent = .ok .ok t ∧
      t.machine.output = "a\n" := by
  have hstep : (answer? (step .standard (.ofText "print \"a\"; print \"b\";") true .byDistance
      spent)).map (fun ended => (ended.1 = .done : Bool) && !ended.2.pending.isEmpty) =
      some true := by decide +kernel
  have hrun : answer? (runSource .standard "print \"a\"; print \"b\";" .byDistance spent) =
      some .ok := by decide +kernel
  have houtput : (final (runSource .standard "print \"a\"; print \"b\";" .byDistance
      spent)).machine.output = "a\n" := by decide +kernel
  have htext : (TokenStream.ofText "print \"a\"; print \"b\";").pending.isEmpty = false := by
    decide +kernel
  refine ⟨history_spent, ?_, fun hend => ?_, ?_⟩
  · obtain ⟨⟨status, rest⟩, hanswer, hended⟩ := Option.map_eq_some_iff.mp hstep
    obtain ⟨t, heq⟩ := answer?_eq_some.mp hanswer
    obtain ⟨rfl, hrest⟩ : status = .done ∧ rest.pending ≠ [] := by simpa using hended
    exact ⟨rest, t, heq, hrest⟩
  · have hpending := (TokenStream.genuine_ofText _).pending_eq_nil_of_endMarker (Prod.ext hend rfl)
    rw [hpending] at htext
    cases htext
  · obtain ⟨t, heq⟩ := answer?_eq_some.mp hrun
    rw [heq] at houtput
    exact ⟨t, heq, houtput⟩

end Session

end Lox
