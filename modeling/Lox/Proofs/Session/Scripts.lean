import Lox.CommandLine.Basic
import Lox.Proofs.Session.Regular

/-!
# The meaning of a script

A script executes its statements up to the first failure. A runtime error is the only error that is
reported. After an error of the text nothing is executed any more, and it is reported together with
all errors of the text behind it.
-/
namespace Lox
open Outcome

/-- The error of the text, if any, in an item whose sites are numbered from `next` on. -/
def problem? (limits : Limits) (next : Site) : Item → Option Diagnostic
  | .error error => some error.diagnostic
  | .ok statement =>
    match ((statement.number next).1.resolve limits.scoping).1 with
    | .error (.error error) => some error.diagnostic
    | _ => none

/-- All errors of the text in some items, in their order. -/
def problems (limits : Limits) : Site → List Item → List Diagnostic
  | _, [] => []
  | next, item :: items =>
    (problem? limits next item).toList ++ problems limits (Session.advance limits next item) items

/-- All of the items are statements that are resolved and executed without an error, one after the
other. They take the machine `m` to `m'`, and the next unused number from `next` to `next'`. -/
inductive Executes (limits : Limits) : List Item → Machine → Site → Machine → Site → Prop where
  | nil (m : Machine) (next : Site) : Executes limits [] m next m next
  | cons {statement : Stmt Unit} {items : List Item} {m m' m'' : Machine} {next next' : Site}
    {bindings : List Binding} {value : Value}
    (hresolve : (statement.number next).1.resolve limits.scoping = (.ok (), bindings))
    (hrun : Run.interpret limits.rounds limits.execution (statement.number next).1
      { m with distances := m.distances.record bindings } = .ok value m')
    (rest : Executes limits items
      { m' with distances := m'.distances.forget (transient bindings) } (statement.number next).2
      m'' next') :
    Executes limits (.ok statement :: items) m next m'' next'

/-- What a script does that begins with machine `m`, site number `next` and no errors: its status, its
exit code, the machine when it stops executing, and its errors. -/
inductive Means (limits : Limits) (items : List Item) (m : Machine) (next : Site) :
    Status → Int → Machine → List Diagnostic → Prop where
  /-- There is no failure. -/
  | ok {m' : Machine} {next' : Site} (h : Executes limits items m next m' next') :
    Means limits items m next .ok 0 m' []
  /-- The first failure is a runtime error. -/
  | runtimeError {front back : List Item} {statement : Stmt Unit} {m' m'' : Machine} {next' : Site}
    {bindings : List Binding} {error : RuntimeError} (hitems : items = front ++ .ok statement :: back)
    (h : Executes limits front m next m' next')
    (hresolve : (statement.number next').1.resolve limits.scoping = (.ok (), bindings))
    (hrun : Run.interpret limits.rounds limits.execution (statement.number next').1
      { m' with distances := m'.distances.record bindings } = .error (.error error) m'') :
    Means limits items m next .runtimeError 70 m'' [error.diagnostic]
  /-- The first failure is an error of the text. -/
  | grammarError {front back : List Item} {item : Item} {m' : Machine} {next' : Site} {d : Diagnostic}
    (hitems : items = front ++ item :: back) (h : Executes limits front m next m' next')
    (hproblem : problem? limits next' item = some d) :
    Means limits items m next .grammarError 65 m' (d :: problems limits next' back)

/-- What items mean behind a statement that is executed without an error. -/
theorem Means.cons {limits : Limits} {statement : Stmt Unit} {items : List Item} {m m' m'' : Machine}
    {next : Site} {bindings : List Binding} {value : Value} {status : Status} {code : Int}
    {ds : List Diagnostic}
    (hresolve : (statement.number next).1.resolve limits.scoping = (.ok (), bindings))
    (hrun : Run.interpret limits.rounds limits.execution (statement.number next).1
      { m with distances := m.distances.record bindings } = .ok value m')
    (h : Means limits items
      { m' with distances := m'.distances.forget (transient bindings) } (statement.number next).2
      status code m'' ds) : Means limits (.ok statement :: items) m next status code m'' ds := by
  cases h with
  | ok hfront => exact .ok (.cons hresolve hrun hfront)
  | @runtimeError front back failing _ _ _ _ _ hitems hfront hresolve' hrun' =>
    have hsplit : .ok statement :: items = (.ok statement :: front) ++ .ok failing :: back := by
      rw [hitems, List.cons_append]
    exact .runtimeError hsplit (.cons hresolve hrun hfront) hresolve' hrun'
  | @grammarError front back item _ _ d hitems hfront hproblem =>
    have hsplit : .ok statement :: items = (.ok statement :: front) ++ item :: back := by
      rw [hitems, List.cons_append]
    exact .grammarError hsplit (.cons hresolve hrun hfront) hproblem

namespace Session
variable {past : List (Stmt Site)} {s : Session} {limits : Limits} {items : List Item}

/-- Some errors have been reported between two states of a session. -/
def Reports (s s' : Session) (ds : List Diagnostic) : Prop :=
  s'.reporter = s.reporter ∧ s'.reports = s.reports ++ ds.map fun d => s.reporter.report d false

/-- A report, and those behind it. -/
theorem Reports.cons {s s' : Session} {d : Diagnostic} {ds : List Diagnostic}
    (h : Reports (s.reported d) s' ds) : Reports s s' (d :: ds) := by
  obtain ⟨hreporter, hreports⟩ := h
  refine ⟨hreporter, ?_⟩
  rw [hreports]
  simp [reported]

theorem executes_endMarker (hscoping : 0 < limits.scoping) (hexecution : 0 < limits.execution)
    (m : Machine) (next : Site) :
    Executes limits [.ok .endMarker] m next { m with done := true } next := by
  have hcons : Executes limits [.ok .endMarker] m next _ _ :=
    .cons (resolve_endMarker hscoping) (interpret_endMarker hexecution limits.rounds _) (.nil _ _)
  have hnumber : (Stmt.endMarker : Stmt Unit).number next = (.endMarker, next) := rfl
  simpa [transient, hnumber] using hcons

theorem problems_endMarker (hscoping : 0 < limits.scoping) (next : Site) :
    problems limits next [.ok .endMarker] = [] := by
  have hresolve := resolve_endMarker hscoping
  have hnumber : (Stmt.endMarker : Stmt Unit).number next = (.endMarker, next) := rfl
  simp [problems, problem?, hnumber, hresolve]

/-- After an error of the text a script only collects the other errors of the text. -/
theorem Regular.walk_problems (h : Regular past s) (hmode : s.mode = .script) (hitems : Whole items)
    (hscoping : 0 < limits.scoping) :
    ∃ s', walk .forgetting limits items .grammarError s = .ok .grammarError s' ∧
      s'.machine = { s.machine with distances := s'.machine.distances } ∧
      Reports s s' (problems limits s.nextSite items) := by
  have hrun : false = (decide (s.mode = .interactive) || decide (Status.grammarError = .ok)) := by
    rw [hmode]
    rfl
  induction hitems generalizing past s with
  | marker =>
    rw [walk_cons hrun, handle_endMarker_false hscoping]
    refine ⟨s, rfl, rfl, rfl, ?_⟩
    rw [problems_endMarker hscoping]
    exact (List.append_nil _).symm
  | @cons item items hitem hunended rest ih =>
    rw [walk_cons hrun]
    cases item with
    | error e =>
      obtain ⟨s', hwalk, hmachine, hreports⟩ := ih (h.reported e.diagnostic) hmode hrun
      refine ⟨s', hwalk, hmachine, ?_⟩
      exact hreports.cons
    | ok statement =>
      have hnext := Next.of_item h hitem
      have hperformed := hnext.performed limits false
      simp only [handle]
      generalize hresult : perform .forgetting limits _ _ false s = result at hperformed ⊢
      cases hperformed with
      | @unresolved _ e bindings hresolve =>
        obtain ⟨s', hwalk, hmachine, hreports⟩ := ih (h.reported e.diagnostic) hmode hrun
        refine ⟨s', hwalk, hmachine, ?_⟩
        have hproblems : problems limits s.nextSite (.ok statement :: items) =
            e.diagnostic :: problems limits s.nextSite items := by
          simp [problems, problem?, advance, hresolve]
        rw [hproblems]
        exact hreports.cons
      | @passed bindings hresolve =>
        have hpassed := (h.recorded (hnext.taken hresolve)).tended
          (List.mem_append_right _ List.mem_cons_self) hresolve
        have hproblems : problems limits s.nextSite (.ok statement :: items) =
            problems limits (statement.number s.nextSite).2 items := by
          simp [problems, problem?, advance, hresolve]
        rw [hproblems, passed_number]
        rcases passed_eq statement with ⟨rfl, hstatus⟩ | ⟨-, hstatus⟩
        · rw [hstatus]
          obtain rfl : items = [.ok .endMarker] := hunended.resolve_left fun h => h
          refine ⟨_, rfl, rfl, rfl, ?_⟩
          rw [problems_endMarker hscoping]
          exact (List.append_nil _).symm
        · rw [hstatus]
          obtain ⟨s', hwalk, hmachine, hreports⟩ := ih hpassed hmode hrun
          exact ⟨s', hwalk, hmachine, hreports⟩

/-- A walk that has ended has the status, the output and globals, and the reports that the items
mean. -/
def Follows (limits : Limits) (items : List Item) (s : Session) :
    EStateM.Result Interruption Session Status → Prop
  | .ok status s' => ∃ code m ds, Means limits items s.machine s.nextSite status code m ds ∧
      s'.machine = { m with distances := s'.machine.distances } ∧ Reports s s' ds
  | .error interruption _ => interruption = .unfinished

/-- Until its first failure a script executes its statements. -/
theorem Regular.walk_follows (h : Regular past s) (hmode : s.mode = .script) (hitems : Whole items)
    (hscoping : 0 < limits.scoping) (hexecution : 0 < limits.execution)
    (hdone : s.machine.done = false) :
    Follows limits items s (walk .forgetting limits items .ok s) := by
  have hrun : true = (decide (s.mode = .interactive) || decide (Status.ok = .ok)) := by
    rw [hmode]
    rfl
  induction hitems generalizing past s with
  | marker =>
    rw [walk_cons hrun, handle_endMarker_true hscoping hexecution]
    exact ⟨0, _, [], .ok (executes_endMarker hscoping hexecution _ _), rfl, rfl,
      (List.append_nil _).symm⟩
  | @cons item items hitem hunended rest ih =>
    rw [walk_cons hrun]
    cases item with
    | error e =>
      obtain ⟨s', hwalk, hmachine, hreports⟩ :=
        (h.reported e.diagnostic).walk_problems hmode rest hscoping
      simp only [handle, hwalk]
      exact ⟨65, _, _, .grammarError (List.nil_append _).symm (.nil _ _) rfl, hmachine, hreports.cons⟩
    | ok statement =>
      have hnext := Next.of_item h hitem
      have hperformed := hnext.performed limits true
      simp only [handle]
      generalize hresult : perform .forgetting limits _ _ true s = result at hperformed ⊢
      cases hperformed with
      | @unresolved _ e bindings hresolve =>
        obtain ⟨s', hwalk, hmachine, hreports⟩ :=
          (h.reported e.diagnostic).walk_problems hmode rest hscoping
        simp only [hwalk]
        have hproblem : problem? limits s.nextSite (.ok statement) = some e.diagnostic := by
          simp [problem?, hresolve]
        exact ⟨65, _, _, .grammarError (List.nil_append _).symm (.nil _ _) hproblem, hmachine,
          hreports.cons⟩
      | @done bindings value m hresolve hrun' hm =>
        -- Only the last statement can have executed the end of the input.
        obtain rfl : items = [.ok .endMarker] := by
          refine hunended.resolve_left fun hwithin => ?_
          have hsame := hnext.done_interpret (hwithin.number_regular _) hresolve limits.rounds
            limits.execution
          rw [hrun', hdone] at hsame
          rw [show m.done = false from hsame] at hm
          cases hm
        refine ⟨0, _, [], .ok (.cons hresolve hrun'
          (executes_endMarker hscoping hexecution _ _)), ?_, rfl, (List.append_nil _).symm⟩
        simp only [← hm]
        rfl
      | @ok bindings value m hresolve hrun' hm =>
        have hbehind : Regular _
            ((s.recorded bindings (statement.number s.nextSite).2).tended .forgetting bindings m) :=
          hnext.tended hresolve hrun'
        have hfollows := ih (hbehind.keeping (statement.number s.nextSite).1 value) hmode hm hrun
        simp only
        generalize walk .forgetting limits items .ok _ = result at hfollows ⊢
        cases result with
        | error interruption s' => exact hfollows
        | ok status s' =>
          obtain ⟨code, m', ds, hmeans, hmachine, hreports⟩ := hfollows
          exact ⟨code, m', ds, hmeans.cons hresolve hrun', hmachine, hreports⟩
      | @runtimeError bindings error m hresolve hrun' =>
        have hscript : ((s.recorded bindings (statement.number s.nextSite).2).tended .forgetting
            bindings m).mode = .script := hmode
        simp only [hmode, if_true]
        exact ⟨70, m, [error.diagnostic], .runtimeError (List.nil_append _).symm (.nil _ _) hresolve hrun',
          rfl, rfl, rfl⟩
      | unfinished => rfl

/-- A source in a new script that does not run for ever has the meaning of its items. -/
theorem runSource_follows {path : String} {clock : Nat → Float} {reporter : Reporter}
    (hstart : start .script path clock reporter = .ok s) (hnesting : 0 < limits.nesting)
    (hscoping : 0 < limits.scoping) (hexecution : 0 < limits.execution) (source : String) :
    Follows limits ((TokenStream.ofText source).statements limits.nesting)
      { s with reporter := s.reporter.withFile s.path source }
      (runSource limits source .byDistance s) := by
  obtain ⟨hmode, -, -⟩ := start_script_eq_ok hstart
  obtain ⟨hmachine, -, -, -⟩ := start_eq_ok hstart
  let quoted : Session := { s with reporter := s.reporter.withFile s.path source }
  have hregular : Regular [] quoted := ⟨(Regular.start hstart).steady, (Regular.start hstart).within⟩
  have hdone : quoted.machine.done = false := congrArg Machine.done hmachine
  obtain ⟨depth, hdepth⟩ := Nat.exists_eq_add_of_lt hnesting
  rw [Nat.zero_add] at hdepth
  have hwhole : Whole ((TokenStream.ofText source).statements limits.nesting) := by
    rw [hdepth]
    exact whole_statementsUpTo (TokenStream.genuine_ofText source) (Nat.lt_succ_self _)
  have hfollows : Follows limits _ quoted (walk .forgetting limits _ .ok quoted) :=
    hregular.walk_follows hmode hwhole hscoping hexecution hdone
  rw [runSource_apply hscoping hexecution, bind_apply]
  cases hwalk : walk .forgetting limits ((TokenStream.ofText source).statements limits.nesting) .ok
      quoted with
  | error interruption s' =>
    rw [hwalk] at hfollows
    exact hfollows
  | ok status s' =>
    rw [hwalk] at hfollows
    have hclosed : s'.closed = s' := closed_of_script ((SameSetting.walk hwalk).1.trans hmode)
    show Follows limits _ quoted (.ok status s'.closed)
    rw [hclosed]
    exact hfollows

end Session

namespace CommandLine

/-- The code that a script exits with is the one for its status. -/
theorem exitCode_of_means {limits : Limits} {items : List Item} {m m' : Machine} {next : Site}
    {status : Status} {code : Int} {ds : List Diagnostic}
    (h : Means limits items m next status code m' ds) : exitCode status = code := by
  cases h <;> rfl

/-- A call with a file that holds a script which does not run for ever. The statements of the script
are executed up to the first failure and nothing behind it; output and globals are those of that
prefix. A runtime error is reported alone, and the call exits with 70. An error of the text is
reported together with all errors of the text behind it, and the call exits with 65. Otherwise nothing
is reported, and the call exits with 0. -/
theorem run_script_means {limits : Limits} {colouring : Colouring} {clock : Nat → Float}
    {contents : String → Option (List UInt8)} {input file source : String} {words : List String}
    (hwords : Request.ofWords words = .ok (.run file)) (hfile : file ≠ Session.terminalPath)
    (hsource : sourceText file (contents file) = .ok source) (hnesting : 0 < limits.nesting)
    (hscoping : 0 < limits.scoping) (hexecution : 0 < limits.execution)
    (hends : run limits colouring clock contents input words ≠ none) :
    ∃ s status s' code m ds, Session.start .script file clock (.initial true) = .ok s ∧
      Session.runSource limits source .byDistance s = .ok status s' ∧
      Means limits ((TokenStream.ofText source).statements limits.nesting) s.machine s.nextSite
        status code m ds ∧
      s'.machine = { m with distances := s'.machine.distances } ∧
      s'.reports =
        ds.map (fun d => ((Reporter.initial true).withFile file source).report d false) ∧
      run limits colouring clock contents input words =
        some ⟨some code, m.output, written colouring s'.reports⟩ := by
  have hstart : ∃ s, Session.start .script file clock (.initial true) = .ok s :=
    ⟨_, if_neg hfile⟩
  obtain ⟨s, hstart⟩ := hstart
  obtain ⟨-, hpath, hfirst⟩ := Session.start_script_eq_ok hstart
  obtain ⟨-, -, -, hreports⟩ := Session.start_eq_ok hstart
  have hreporter : s.reporter.withFile s.path source =
      (Reporter.initial true).withFile file source := by
    rw [hpath, hfirst]
    rfl
  have hcall : run limits colouring clock contents input words =
      runFile limits colouring clock none file (contents file) := by
    simp only [run, hwords]
  have hfollows := Session.runSource_follows hstart hnesting hscoping hexecution source
  cases hresult : Session.runSource limits source .byDistance s with
  | error interruption t =>
    rw [hresult] at hfollows
    obtain rfl : interruption = .unfinished := hfollows
    have hnone : runFile limits colouring clock none file (contents file) = none := by
      simp only [runFile, hstart, hsource, work, hresult]
    exact absurd (hcall.trans hnone) hends
  | ok status s' =>
    rw [hresult] at hfollows
    obtain ⟨code, m, ds, hmeans, hmachine, -, hreported⟩ := hfollows
    simp only [hreports, hreporter, List.nil_append] at hreported
    have hfinish : runFile limits colouring clock none file (contents file) =
        some (finish colouring status s') := by
      simp only [runFile, hstart, hsource, work, hresult]
    refine ⟨s, status, s', code, m, ds, hstart, hresult, hmeans, hmachine, hreported, ?_⟩
    rw [hcall, hfinish, finish, exitCode_of_means hmeans, hmachine]

/-- A file with two errors of the text. The second statement is not executed, nor is the fourth. -/
def brokenScript : String :=
  "print \"a\"; print ; print \"c\"; var ;"

theorem run_script_means_of_broken :
    ∃ s status s' code m ds,
      Session.start .script "p.lox" (fun _ => 0) (.initial true) = .ok s ∧
      Session.runSource .standard brokenScript .byDistance s = .ok status s' ∧
      Means .standard ((TokenStream.ofText brokenScript).statements Limits.standard.nesting)
        s.machine s.nextSite status code m ds ∧
      s'.machine = { m with distances := s'.machine.distances } ∧
      s'.reports =
        ds.map (fun d => ((Reporter.initial true).withFile "p.lox" brokenScript).report d false) ∧
      run .standard .plain (fun _ => 0)
          (fun _ => some (brokenScript.toList.map fun c => c.toNat.toUInt8)) "" ["p.lox"] =
        some ⟨some code, m.output, written .plain s'.reports⟩ := by
  have hends : (run .standard .plain (fun _ => 0)
      (fun _ => some (brokenScript.toList.map fun c => c.toNat.toUInt8)) "" ["p.lox"]).isSome := by
    decide +kernel
  exact run_script_means rfl (by decide) rfl (by decide) (by decide) (by decide)
    (Option.isSome_iff_ne_none.mp hends)

end CommandLine

end Lox
