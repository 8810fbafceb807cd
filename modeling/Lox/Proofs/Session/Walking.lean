import Lox.Proofs.Scoping.Sessions

/-!
# What a session does with one item after the other

A stream hands out statements, and errors in the place of statements. What a session does in a step
depends on nothing else of the stream, so a run of a session is a walk along the items of its
stream. A session forgets the transient distances of a statement when it is through with it. Other
ways of keeping the table are described here as well, so that they can be compared with that one.
-/
namespace Lox
open Outcome

/-- What a stream hands out at once: a statement, or the error in its place. -/
abbrev Item := Except ParseError (Stmt Unit)

/-- The first `count` items of a stream. Behind the end of the input there is only its marker. -/
def TokenStream.taken (depth : Nat) : Nat → TokenStream → List Item
  | 0, _ => []
  | count + 1, s => (s.takeStatement depth).1 :: taken depth count (s.takeStatement depth).2

/-- The items of a source, the end of the input among them. -/
def items (depth : Nat) (source : String) : List Item :=
  (TokenStream.ofText source).taken depth ((TokenStream.ofText source).remaining + 1)

/-- What becomes of the table behind a statement. Distances inside functions stay as they are. -/
structure Upkeep where
  tend : List Binding → Distances → Distances
  spares : ∀ {bindings : List Binding} {d : Distances} {site : Site},
    (∀ b ∈ transient bindings, b.site ≠ site) → (tend bindings d).find? site = d.find? site

namespace Upkeep

/-- The transient distances are dropped. -/
def forgetting : Upkeep where
  tend bindings d := d.forget (transient bindings)
  spares := Distances.find?_forget_of_forall_ne

/-- All distances are kept. -/
def retaining : Upkeep where
  tend _ d := d
  spares _ := rfl

/-- The transient distances are replaced by arbitrary ones. -/
def replacing (distance : Site → Nat) : Upkeep where
  tend bindings d :=
    d.record ((transient bindings).map fun b => { b with distance := distance b.site })
  spares h := Distances.find?_record_of_forall_ne fun b hb => by
    obtain ⟨c, hc, rfl⟩ := List.mem_map.mp hb
    exact h c hc

end Upkeep

namespace Session

/-- The session with one more report. -/
def reported (s : Session) (d : Diagnostic) : Session :=
  { s with reports := s.reports ++ [s.reporter.report d false] }

/-- The value that is kept of a statement: that of an expression, in an interactive session. -/
def kept {σ : Type} (mode : Mode) (statement : Stmt σ) (value : Value) : List Value :=
  match mode, statement with
  | .interactive, .expression _ => [value]
  | _, _ => []

/-- The session with the value of a statement, if that is kept. -/
def keeping {σ : Type} (s : Session) (statement : Stmt σ) (value : Value) : Session :=
  { s with results := s.results ++ kept s.mode statement value }

/-- The session behind a statement that has left the machine `m`. -/
def tended (s : Session) (upkeep : Upkeep) (bindings : List Binding) (m : Machine) : Session :=
  { s with machine := { m with distances := upkeep.tend bindings m.distances } }

/-- What a session makes of the run of a statement. -/
def settle (s : Session) (upkeep : Upkeep) (numbered : Stmt Site) (bindings : List Binding) :
    EStateM.Result Stop Machine Value → EStateM.Result Interruption Session Status
  | .ok value m =>
    if m.done then .ok .done (s.tended upkeep bindings m)
    else .ok .ok ((s.tended upkeep bindings m).keeping numbered value)
  | .error (.error error) m =>
    .ok .runtimeError ((s.tended upkeep bindings m).reported error.diagnostic)
  | .error (.fault fault) m => .error (.fault fault) (s.tended upkeep bindings m)
  | .error .unfinished m => .error .unfinished (s.tended upkeep bindings m)

/-- The status of a statement that is passed over instead of being executed. -/
def passed {σ : Type} (statement : Stmt σ) : Status :=
  match statement with
  | .endMarker => .done
  | _ => .ok

theorem passed_eq {σ : Type} (statement : Stmt σ) :
    statement = .endMarker ∧ passed statement = .done ∨
      statement ≠ .endMarker ∧ passed statement = .ok := by
  cases statement <;> simp [passed]

theorem passed_number (statement : Stmt Unit) (next : Site) :
    passed (statement.number next).1 = passed statement := by
  cases statement with
  | «variable» name initializer => cases initializer <;> rfl
  | conditional condition yes no => cases no <;> rfl
  | «return» keyword value => cases value <;> rfl
  | _ => rfl

/-- What a session does with a statement that has been numbered. -/
def perform (upkeep : Upkeep) (limits : Limits) (numbered : Stmt Site) (after : Site)
    (run : Bool) : SessionM Status := fun s =>
  match numbered.resolve limits.scoping with
  | (.error (.error error), _) => .ok .grammarError (s.reported error.diagnostic)
  | (.error (.fault fault), bindings) => .error (.fault fault) (s.recorded bindings after)
  | (.ok _, bindings) =>
    if run then
      (s.recorded bindings after).settle upkeep numbered bindings
        (Run.interpret limits.rounds limits.execution numbered (s.recorded bindings after).machine)
    else .ok (passed numbered)
      ((s.recorded bindings after).tended upkeep bindings (s.recorded bindings after).machine)

/-- What a session does with an item. -/
def handle (upkeep : Upkeep) (limits : Limits) (item : Item) (run : Bool) : SessionM Status :=
  fun s =>
    match item with
    | .error error => .ok .grammarError (s.reported error.diagnostic)
    | .ok statement =>
      perform upkeep limits (statement.number s.nextSite).1 (statement.number s.nextSite).2 run s

/-- Handles items until the end of the input has been executed. The status is the last one that is
neither `ok` nor `done`. -/
def walk (upkeep : Upkeep) (limits : Limits) : List Item → Status → SessionM Status
  | [], status => return status
  | item :: items, status => do
    let mode := (← get).mode
    match ← handle upkeep limits item (mode = .interactive || status = .ok) with
    | .done => return status
    | .ok => walk upkeep limits items status
    | .grammarError => walk upkeep limits items .grammarError
    | .runtimeError =>
      if mode = .script then return .runtimeError else walk upkeep limits items .runtimeError

/-- The session behind a source: an interactive one goes on with another source. -/
def closed (s : Session) : Session :=
  match s.mode with
  | .interactive => { s with machine := { s.machine with done := false } }
  | .script => s

theorem closed_of_script {s : Session} (h : s.mode = .script) : s.closed = s := by
  simp [closed, h]

theorem closed_of_interactive {s : Session} (h : s.mode = .interactive) :
    s.closed = { s with machine := { s.machine with done := false } } := by
  simp [closed, h]

/-- Handles the items of a source. -/
def walkSource (upkeep : Upkeep) (limits : Limits) (source : String) : SessionM Status := do
  quoteFrom source
  let status ← walk upkeep limits (items limits.nesting source) .ok
  modify closed
  return status

/-- Runs sources one after the other, and then takes `count` steps in another one. -/
def runThenStep (upkeep : Upkeep) (limits : Limits) (sources : List String) (source : String)
    (count : Nat) : SessionM (List Status × Status) := do
  let statuses ← sources.mapM (walkSource upkeep limits)
  quoteFrom source
  let status ← walk upkeep limits ((TokenStream.ofText source).taken limits.nesting count) .ok
  return (statuses, status)

/-- A new session has an initial machine, and nothing has come of it yet. -/
theorem start_eq_ok {mode : Mode} {path : String} {clock : Nat → Float} {reporter : Reporter}
    {s : Session} (h : start mode path clock reporter = .ok s) :
    s.machine = .initial clock ∧ s.nextSite = 0 ∧ s.results = [] ∧ s.reports = [] := by
  unfold start at h
  cases mode with
  | interactive =>
    cases h
    exact ⟨rfl, rfl, rfl, rfl⟩
  | script =>
    simp only at h
    split at h
    · cases h
    · cases h
      exact ⟨rfl, rfl, rfl, rfl⟩

/-- A new script has the path and the reporter of its file. -/
theorem start_script_eq_ok {path : String} {clock : Nat → Float} {reporter : Reporter} {s : Session}
    (h : start .script path clock reporter = .ok s) :
    s.mode = .script ∧ s.path = path ∧ s.reporter = reporter.withFile path "" := by
  simp only [start] at h
  split at h
  · cases h
  · cases h
    exact ⟨rfl, rfl, rfl⟩

section Steps
variable {limits : Limits} {stream : TokenStream} {s : Session}

theorem execute_apply (numbered : Stmt Site) (bindings : List Binding) (s : Session) :
    execute limits numbered bindings .byDistance s =
      match Run.interpret limits.rounds limits.execution numbered s.machine with
      | .ok value m => .ok (.ok value) (s.tended .forgetting bindings m)
      | .error (.error error) m => .ok (.error error) (s.tended .forgetting bindings m)
      | .error (.fault fault) m => .error (.fault fault) (s.tended .forgetting bindings m)
      | .error .unfinished m => .error .unfinished (s.tended .forgetting bindings m) := by
  simp only [execute, get_bind_apply, Run.interpret]
  cases Access.byDistance.interpret limits.rounds limits.execution numbered s.machine with
  | ok value m => rfl
  | error stop m => cases stop <;> rfl

theorem keep_apply {σ : Type} (statement : Stmt σ) (value : Value) (s : Session) :
    keep statement value s = .ok () (s.keeping statement value) := by
  obtain ⟨mode, path, machine, nextSite, results, reporter, reports⟩ := s
  cases mode <;> cases statement <;> simp [keep, keeping, kept]

/-- A step handles the next item. -/
theorem step_apply (run : Bool) (s : Session) :
    step limits stream run .byDistance s =
      match handle .forgetting limits (stream.takeStatement limits.nesting).1 run s with
      | .ok status t => .ok (status, (stream.takeStatement limits.nesting).2) t
      | .error interruption t => .error interruption t := by
  unfold step
  cases stream.takeStatement limits.nesting with
  | mk item rest =>
    cases item with
    | error error => rfl
    | ok statement =>
      simp only [bind_apply, handle, perform]
      cases hnumber : statement.number s.nextSite with
      | mk numbered after =>
        cases hresolve : numbered.resolve limits.scoping with
        | mk resolution bindings =>
          cases resolution with
          | error failure =>
            cases failure with
            | error error => rw [resolve_of_error hnumber hresolve]; rfl
            | fault fault => rw [resolve_of_fault hnumber hresolve]
          | ok _ =>
            rw [resolve_of_ok hnumber hresolve]
            cases run with
            | false => cases numbered <;> rfl
            | true =>
              simp only [if_true, bind_apply, execute_apply, settle]
              cases Run.interpret limits.rounds limits.execution numbered
                (s.recorded bindings after).machine with
              | error stop m => cases stop <;> rfl
              | ok value m =>
                by_cases hdone : m.done = true
                · simp [tended, hdone]
                · simp [tended, hdone, bind_apply, keep_apply]

/-- Steps along a stream are a walk along its items. -/
theorem steps_eq_walk (count : Nat) (status : Status) :
    steps .byDistance limits count stream status =
      walk .forgetting limits (stream.taken limits.nesting count) status := by
  induction count generalizing stream status with
  | zero => rfl
  | succ count ih =>
    funext s
    simp only [steps, TokenStream.taken, walk, bind_apply, get_apply, step_apply]
    cases handle .forgetting limits (stream.takeStatement limits.nesting).1
        (s.mode = .interactive || status = .ok) s with
    | error interruption t => rfl
    | ok result t =>
      cases result with
      | ok => exact congrFun (ih _) t
      | grammarError => exact congrFun (ih _) t
      | done => rfl
      | runtimeError =>
        simp only
        split
        · rfl
        · exact congrFun (ih _) t

/-- Running a source is a walk along its items. -/
theorem runSource_eq_walkSource (source : String) :
    runSource limits source = walkSource .forgetting limits source := by
  simp only [runSource, runStream, walkSource, items, steps_eq_walk]
  rfl

end Steps

/-- The next number that is not in use behind an item: what cannot be resolved uses none. -/
def advance (limits : Limits) (next : Site) : Item → Site
  | .error _ => next
  | .ok statement =>
    match ((statement.number next).1.resolve limits.scoping).1 with
    | .ok _ => (statement.number next).2
    | .error _ => next

theorem handle_nextSite {upkeep : Upkeep} {limits : Limits} {item : Item} {run : Bool}
    {status : Status} {s s' : Session} (h : handle upkeep limits item run s = .ok status s') :
    s'.nextSite = advance limits s.nextSite item := by
  cases item with
  | error error =>
    cases h
    rfl
  | ok statement =>
    simp only [handle, perform] at h
    simp only [advance]
    cases hresolve : (statement.number s.nextSite).1.resolve limits.scoping with
    | mk resolution bindings =>
      rw [hresolve] at h
      cases resolution with
      | error failure =>
        cases failure with
        | error e => cases h; rfl
        | fault f => cases h
      | ok _ =>
        simp only at h
        split at h
        · unfold settle at h
          split at h
          · split at h <;> cases h <;> rfl
          · cases h; rfl
          · cases h
          · cases h
        · cases h; rfl

/-- What no step of a session changes. -/
def SameSetting (s s' : Session) : Prop :=
  s'.mode = s.mode ∧ s'.path = s.path ∧ s'.reporter = s.reporter

namespace SameSetting

theorem refl (s : Session) : SameSetting s s :=
  ⟨rfl, rfl, rfl⟩

theorem trans {s s' s'' : Session} (h : SameSetting s s') (h' : SameSetting s' s'') :
    SameSetting s s'' :=
  ⟨h'.1.trans h.1, h'.2.1.trans h.2.1, h'.2.2.trans h.2.2⟩

theorem handle {upkeep : Upkeep} {limits : Limits} {item : Item} {run : Bool} {status : Status}
    {s s' : Session} (h : handle upkeep limits item run s = .ok status s') : SameSetting s s' := by
  cases item with
  | error error =>
    cases h
    exact refl _
  | ok statement =>
    simp only [Session.handle, perform] at h
    split at h
    · cases h; exact refl _
    · cases h
    · split at h
      · unfold settle at h
        split at h
        · split at h <;> cases h <;> exact refl _
        · cases h; exact refl _
        · cases h
        · cases h
      · cases h; exact refl _

theorem walk {upkeep : Upkeep} {limits : Limits} {items : List Item} {status ended : Status}
    {s s' : Session} (h : walk upkeep limits items status s = .ok ended s') : SameSetting s s' := by
  induction items generalizing status s with
  | nil => cases h; exact refl _
  | cons item items ih =>
    simp only [Session.walk, bind_apply, get_apply] at h
    cases hhandle : Session.handle upkeep limits item (s.mode = .interactive || status = .ok) s with
    | error interruption t =>
      rw [hhandle] at h
      cases h
    | ok result t =>
      rw [hhandle] at h
      have hfirst : SameSetting s t := handle hhandle
      cases result with
      | done => cases h; exact hfirst
      | ok => exact hfirst.trans (ih h)
      | grammarError => exact hfirst.trans (ih h)
      | runtimeError =>
        simp only at h
        split at h
        · cases h; exact hfirst
        · exact hfirst.trans (ih h)

end SameSetting

section EndOfInput
variable {limits : Limits} {items : List Item} {s : Session}

/-- The end of the input is resolved, and all that its execution does is to say so. -/
theorem resolve_endMarker (hscoping : 0 < limits.scoping) :
    (Stmt.endMarker : Stmt Site).resolve limits.scoping = (.ok (), []) := by
  obtain ⟨depth, hdepth⟩ := Nat.exists_eq_add_of_lt hscoping
  rw [Nat.zero_add] at hdepth
  rw [hdepth]
  rfl

theorem interpret_endMarker (hexecution : 0 < limits.execution) (rounds : Nat) (m : Machine) :
    Run.interpret rounds limits.execution .endMarker m = .ok .nil { m with done := true } := by
  obtain ⟨depth, hdepth⟩ := Nat.exists_eq_add_of_lt hexecution
  rw [Nat.zero_add] at hdepth
  rw [hdepth]
  rfl

/-- The session behind the end of the input, as long as this is only passed over. -/
theorem handle_endMarker_false (hscoping : 0 < limits.scoping) (s : Session) :
    handle .forgetting limits (.ok .endMarker) false s = .ok .done s := by
  have hresolve := resolve_endMarker hscoping
  have htended : (s.recorded [] s.nextSite).tended .forgetting [] (s.recorded [] s.nextSite).machine =
      s := by
    simp [tended, recorded, Upkeep.forgetting, transient]
  show perform .forgetting limits .endMarker s.nextSite false s = _
  simp only [perform, hresolve, htended]
  rfl

theorem handle_endMarker_true (hscoping : 0 < limits.scoping) (hexecution : 0 < limits.execution)
    (s : Session) : handle .forgetting limits (.ok .endMarker) true s =
      .ok .done { s with machine := { s.machine with done := true } } := by
  have hresolve := resolve_endMarker hscoping
  have hinterpret := interpret_endMarker hexecution limits.rounds (s.recorded [] s.nextSite).machine
  show perform .forgetting limits .endMarker s.nextSite true s = _
  simp only [perform, hresolve, hinterpret, settle, if_true]
  simp [tended, recorded, Upkeep.forgetting, transient]

/-- A step of a walk. -/
theorem walk_cons {upkeep : Upkeep} {item : Item} {status : Status} {run : Bool}
    (hrun : run = (decide (s.mode = .interactive) || decide (status = .ok))) :
    walk upkeep limits (item :: items) status s =
      match handle upkeep limits item run s with
      | .error interruption t => .error interruption t
      | .ok .done t => .ok status t
      | .ok .ok t => walk upkeep limits items status t
      | .ok .grammarError t => walk upkeep limits items .grammarError t
      | .ok .runtimeError t =>
        if s.mode = .script then .ok .runtimeError t
        else walk upkeep limits items .runtimeError t := by
  subst hrun
  simp only [walk, bind_apply, get_apply]
  cases handle upkeep limits item (decide (s.mode = .interactive) || decide (status = .ok)) s with
  | error interruption t => rfl
  | ok ended t =>
    cases ended with
    | runtimeError => simp only; split <;> rfl
    | _ => rfl

/-- It does not matter how often the end of the input is handed out. -/
theorem walk_taken (hscoping : 0 < limits.scoping) (hexecution : 0 < limits.execution)
    {stream : TokenStream} (fuel : Nat) (status : Status) (s : Session) :
    walk .forgetting limits (stream.taken limits.nesting fuel) status s =
      walk .forgetting limits (stream.statementsUpTo limits.nesting fuel) status s := by
  induction fuel generalizing stream status s with
  | zero => rfl
  | succ fuel ih =>
    cases htake : stream.takeStatement limits.nesting with
    | mk item rest =>
      rw [TokenStream.taken, htake, TokenStream.statementsUpTo, htake]
      split
      · rename_i heq
        cases heq
        rw [walk_cons rfl, walk_cons rfl]
        generalize (decide (s.mode = .interactive) || decide (status = .ok)) = run
        cases run with
        | true => rw [handle_endMarker_true hscoping hexecution]
        | false => rw [handle_endMarker_false hscoping]
      · rename_i heq
        cases heq
        simp only [walk_cons rfl, ih]

/-- Running a source is a walk along its statements and errors. -/
theorem runSource_apply (hscoping : 0 < limits.scoping) (hexecution : 0 < limits.execution)
    (source : String) (s : Session) :
    runSource limits source .byDistance s =
      (do let status ← walk .forgetting limits
            ((TokenStream.ofText source).statements limits.nesting) .ok
          modify closed
          return status : SessionM Status)
        { s with reporter := s.reporter.withFile s.path source } := by
  have hwalk : walk .forgetting limits (Lox.items limits.nesting source) .ok
      { s with reporter := s.reporter.withFile s.path source } =
        walk .forgetting limits ((TokenStream.ofText source).statements limits.nesting) .ok
          { s with reporter := s.reporter.withFile s.path source } :=
    walk_taken hscoping hexecution _ _ _
  rw [runSource_eq_walkSource]
  simp only [walkSource, quoteFrom, modify_bind_apply]
  rw [bind_apply, bind_apply, hwalk]

end EndOfInput

end Session

end Lox
